import K6Rs.Library.DoubleError
import K6Rs.Verification.Config
import Mathlib.Algebra.Order.BigOperators.Group.List

/-! # Duration texts

A duration is a number of milliseconds, or numbers with units one after another. The scanner reads
exactly these texts, and adds their components up in double precision. -/

namespace K6Rs

open FloatLit (isDigit digits takeWhile_digits dropWhile_digits)
open FloatOps

/-! ## The grammar -/

inductive TimeUnit where
  | nanosecond | microsecond | millisecond | second | minute | hour | day
  deriving DecidableEq

/-- The factors that lead from a unit to nanoseconds. -/
def TimeUnit.factors : TimeUnit → List ℕ
  | .nanosecond => []
  | .microsecond => [1000]
  | .millisecond => [1000000]
  | .second => [1000000000]
  | .minute => [60, 1000000000]
  | .hour => [60, 60, 1000000000]
  | .day => [24, 60, 60, 1000000000]

def TimeUnit.nanos (unit : TimeUnit) : ℕ := unit.factors.prod

inductive UnitText : Str → TimeUnit → Prop where
  | nanosecond : UnitText "ns".toList .nanosecond
  | microsecond : UnitText "us".toList .microsecond
  | greek : UnitText "µs".toList .microsecond
  | millisecond : UnitText "ms".toList .millisecond
  | second : UnitText "s".toList .second
  | minute : UnitText "m".toList .minute
  | hour : UnitText "h".toList .hour
  | day : UnitText "d".toList .day

/-- A number with at least one digit and at most one point. -/
inductive NumberText : Str → ℚ → Prop where
  | whole {int : Str} (hne : int ≠ []) (hint : ∀ c ∈ int, isDigit c) :
      NumberText int (digits int)
  | point {int frac : Str} (hne : int ++ frac ≠ []) (hint : ∀ c ∈ int, isDigit c)
      (hfrac : ∀ c ∈ frac, isDigit c) :
      NumberText (int ++ '.' :: frac) (digits (int ++ frac) / 10 ^ frac.length)

structure Component where
  number : ℚ
  unit : TimeUnit

inductive Components : Str → List Component → Prop where
  | nil : Components [] []
  | cons {number unit rest : Str} {q : ℚ} {u : TimeUnit} {cs : List Component}
      (hnumber : NumberText number q) (hunit : UnitText unit u) (hrest : Components rest cs) :
      Components (number ++ (unit ++ rest)) (⟨q, u⟩ :: cs)

inductive DurationText (s : Str) : List Component → Prop where
  | millis {q : ℚ} (hnumber : NumberText s q) : DurationText s [⟨q, .millisecond⟩]
  | components {cs : List Component} (hcomponents : Components s cs) (hne : cs ≠ []) :
      DurationText s cs

/-- The exact number of nanoseconds. -/
def Component.nanos (c : Component) : ℚ := c.number * c.unit.nanos

def exactNanos (cs : List Component) : ℚ := (cs.map Component.nanos).sum

section

variable {F : Type} [FloatOps F]

/-- The nanoseconds in the floats of `F`. -/
def Component.floatNanos (c : Component) : F :=
  c.unit.factors.foldl (fun x n => mul x (ofNat n)) (ofRat c.number)

/-- What the loop adds to the total. -/
def addComponents (total : F) (cs : List Component) : F :=
  cs.foldl (fun total c => add total c.floatNanos) total

end

def totalF64 (cs : List Component) : Double := addComponents zero cs

/-- A literal is the float of its value. -/
class ReadsLiterals (F : Type) [FloatOps F] [FloatParse F] : Prop where
  ofLit_dec (mantissa : ℕ) (exp : ℤ) :
    (FloatParse.ofLit (.dec false mantissa exp) : F) = ofRat (mantissa * 10 ^ exp)

instance : ReadsLiterals Double where
  ofLit_dec mantissa exp := by
    have hnonneg : (0 : ℚ) ≤ mantissa * 10 ^ exp :=
      mul_nonneg (Nat.cast_nonneg _) (zpow_nonneg (by norm_num) _)
    change Double.round false _ = Double.ofRat _
    rw [Double.ofRat, decide_eq_false (not_lt.mpr hnonneg)]

instance : ReadsLiterals ℚ where
  ofLit_dec mantissa exp := by
    change (1 : ℚ) * mantissa * 10 ^ exp = mantissa * 10 ^ exp
    rw [one_mul]

/-! ## Numbers -/

section

variable {number unit rest s t : Str} {q : ℚ} {u : TimeUnit} {cs : List Component} {F : Type}
  [FloatOps F] [FloatParse F] [ReadsLiterals F]

theorem NumberText.nonneg (h : NumberText number q) : 0 ≤ q := by
  cases h with
  | whole _ _ => exact Nat.cast_nonneg _
  | point _ _ _ => exact div_nonneg (Nat.cast_nonneg _) (by positivity)

theorem NumberText.mem (h : NumberText number q) : ∀ c ∈ number, isDigit c = true ∨ c = '.' := by
  cases h with
  | whole _ hint => exact fun c hc => .inl (hint c hc)
  | @point int frac _ hint hfrac =>
      intro c hc
      rcases List.mem_append.mp hc with hc | hc
      · exact .inl (hint c hc)
      · rcases List.mem_cons.mp hc with rfl | hc
        · exact .inr rfl
        · exact .inl (hfrac c hc)

theorem NumberText.any (h : NumberText number q) : number.any isDigit = true := by
  cases h with
  | whole hne hint =>
      obtain ⟨c, hc⟩ := List.exists_mem_of_ne_nil _ hne
      exact List.any_eq_true.mpr ⟨c, hc, hint c hc⟩
  | @point int frac hne hint hfrac =>
      obtain ⟨c, hc⟩ := List.exists_mem_of_ne_nil _ hne
      rw [List.any_eq_true]
      rcases List.mem_append.mp hc with hc | hc
      · exact ⟨c, List.mem_append_left _ hc, hint c hc⟩
      · exact ⟨c, List.mem_append_right _ (List.mem_cons_of_mem _ hc), hfrac c hc⟩

theorem NumberText.ne_nil (h : NumberText number q) : number ≠ [] := by
  rintro rfl
  exact Bool.false_ne_true h.any

/-- The literal of a number. -/
theorem NumberText.parseNumber (h : NumberText number q) :
    ∃ mantissa exp, FloatLit.parseNumber false number = some (.dec false mantissa exp) ∧
      (mantissa : ℚ) * 10 ^ exp = q := by
  cases h with
  | whole hne hint => exact ⟨digits number, 0, FloatLit.parseNumber_whole false hne hint, by simp⟩
  | @point int frac hne hint hfrac =>
      refine ⟨digits (int ++ frac), -frac.length, FloatLit.parseNumber_point false hne hint hfrac,
        ?_⟩
      rw [zpow_neg, zpow_natCast, div_eq_mul_inv]

theorem parseF64_number (h : NumberText number q) (message : Str) :
    parseF64 message number = .ok (ofRat q : F) := by
  obtain ⟨mantissa, exp, hparse, rfl⟩ := h.parseNumber
  obtain ⟨c, rest, rfl⟩ := List.exists_cons_of_ne_nil h.ne_nil
  rw [parseF64, FloatLit.parse_cons (h.mem c List.mem_cons_self), hparse]
  exact congrArg Except.ok (ReadsLiterals.ofLit_dec mantissa exp)

/-! ## Scanning -/

/-- What stands behind a number: no digit, and no point. -/
theorem scanNumber_append (h : NumberText number q) {c : Char} (hc : isDigit c = false)
    (hdot : c ≠ '.') : scanNumber (number ++ c :: rest) = (number, c :: rest) := by
  have hstop : ∀ d ∈ (c :: rest).head?, isDigit d = false := by
    intro d hd
    cases hd
    exact hc
  cases h with
  | whole hne hint =>
      rw [scanNumber, takeWhile_digits hint hstop, dropWhile_digits hint hstop]
      split
      · rename_i heq
        exact absurd (List.cons.inj heq).1 hdot
      · rfl
  | @point int frac hne hint hfrac =>
      have hpoint : ∀ d ∈ ('.' :: (frac ++ c :: rest)).head?, isDigit d = false := by
        intro d hd
        cases hd
        decide
      rw [List.append_assoc, List.cons_append, scanNumber, takeWhile_digits hint hpoint,
        dropWhile_digits hint hpoint]
      simp only [takeWhile_digits hfrac hstop, dropWhile_digits hfrac hstop]

theorem scanNumber_sound (s : Str) (h : (scanNumber s).1.any isDigit = true) :
    s = (scanNumber s).1 ++ (scanNumber s).2 ∧ ∃ q, NumberText (scanNumber s).1 q := by
  have hint : ∀ c ∈ s.takeWhile isDigit, isDigit c = true := fun c hc => List.mem_takeWhile_imp hc
  have hs : s = s.takeWhile isDigit ++ s.dropWhile isDigit := List.takeWhile_append_dropWhile.symm
  rw [scanNumber] at h ⊢
  split at h
  · rename_i rest hrest
    have hfrac : ∀ c ∈ rest.takeWhile isDigit, isDigit c = true :=
      fun c hc => List.mem_takeWhile_imp hc
    simp only [hrest] at hs ⊢
    refine ⟨?_, _, .point (fun hnil => ?_) hint hfrac⟩
    · conv_lhs => rw [hs]
      rw [List.append_assoc, List.cons_append, List.takeWhile_append_dropWhile]
    · rw [List.append_eq_nil_iff] at hnil
      rw [hnil.1, hnil.2] at h
      exact Bool.false_ne_true h
  · rename_i hrest
    have hne : s.takeWhile isDigit ≠ [] := by
      intro hnil
      rw [hnil] at h
      cases h
    exact ⟨hs, _, .whole hne hint⟩

theorem UnitText.isUnitChar (h : UnitText unit u) : ∀ c ∈ unit, isUnitChar c = true := by
  have hall : unit.all K6Rs.isUnitChar = true := by cases h <;> decide
  exact List.all_eq_true.mp hall

theorem UnitText.ne_nil (h : UnitText unit u) : unit ≠ [] := by
  cases h <;> decide

omit [FloatParse F] [ReadsLiterals F] in
theorem unitNanos_eq_ok_iff {number nanos : F} :
    unitNanos unit number = .ok nanos ↔
      ∃ u, UnitText unit u ∧ u.factors.foldl (fun x n => mul x (ofNat n)) number = nanos := by
  constructor
  · intro h
    rw [unitNanos] at h
    split at h
    · rename_i hunit
      subst hunit
      exact ⟨_, .nanosecond, Except.ok.inj h⟩
    split at h
    · rename_i hunit
      rcases hunit with rfl | rfl
      · exact ⟨_, .microsecond, Except.ok.inj h⟩
      · exact ⟨_, .greek, Except.ok.inj h⟩
    split at h
    · rename_i hunit
      subst hunit
      exact ⟨_, .millisecond, Except.ok.inj h⟩
    split at h
    · rename_i hunit
      subst hunit
      exact ⟨_, .second, Except.ok.inj h⟩
    split at h
    · rename_i hunit
      subst hunit
      exact ⟨_, .minute, Except.ok.inj h⟩
    split at h
    · rename_i hunit
      subst hunit
      exact ⟨_, .hour, Except.ok.inj h⟩
    split at h
    · rename_i hunit
      subst hunit
      exact ⟨_, .day, Except.ok.inj h⟩
    · cases h
  · rintro ⟨u, hunit, rfl⟩
    cases hunit <;> rfl

theorem not_isUnitChar_of_isDigit {c : Char} (h : isDigit c = true) : isUnitChar c = false := by
  simp only [isDigit, Bool.and_eq_true, decide_eq_true_eq] at h
  have hle : ∀ d : Char, d ≤ c → d ≤ '9' := fun d hd => le_trans hd h.2
  have hupper : ¬ 'A' ≤ c := fun hd => absurd (hle 'A' hd) (by decide)
  have hlower : ¬ 'a' ≤ c := fun hd => absurd (hle 'a' hd) (by decide)
  have hgreek : c ≠ 'µ' := fun hd => absurd (hle 'µ' hd.ge) (by decide)
  have halpha : c.isAlpha =
      (decide (c.val ≥ 'A'.val ∧ c.val ≤ 'Z'.val) || c.val ≥ 'a'.val && c.val ≤ 'z'.val) := rfl
  simp only [isUnitChar, halpha, Bool.or_eq_false_iff, Bool.and_eq_false_iff,
    decide_eq_false_iff_not]
  exact ⟨⟨fun h => hupper h.1, .inl hlower⟩, hgreek⟩

/-- Components begin with a digit or a point. -/
theorem Components.head (h : Components s cs) : ∀ c ∈ s.head?, isUnitChar c = false := by
  cases h with
  | nil => simp
  | cons hnumber _ _ =>
      obtain ⟨d, digits, rfl⟩ := List.exists_cons_of_ne_nil hnumber.ne_nil
      intro c hc
      cases hc
      rcases hnumber.mem d List.mem_cons_self with hdigit | rfl
      · exact not_isUnitChar_of_isDigit hdigit
      · decide

theorem takeWhile_unit (hunit : UnitText unit u) (hrest : Components rest cs) :
    (unit ++ rest).takeWhile isUnitChar = unit ∧ (unit ++ rest).dropWhile isUnitChar = rest := by
  rw [List.takeWhile_append_of_pos hunit.isUnitChar, List.dropWhile_append_of_pos hunit.isUnitChar]
  have hhead := hrest.head
  cases rest with
  | nil => simp
  | cons c rest => simp [hhead c rfl]

/-- The loop reads a number with a unit, and goes on with the rest. -/
theorem componentNanos_append (text : Str) {fuel : ℕ} {total : F}
    (hnumber : NumberText number q) (hunit : UnitText unit u) (hrest : Components rest cs) :
    componentNanos text (fuel + 1) (number ++ (unit ++ rest)) total =
      componentNanos text fuel rest (add total (Component.floatNanos ⟨q, u⟩)) := by
  obtain ⟨c, body, hbody⟩ := List.exists_cons_of_ne_nil hunit.ne_nil
  have hc : isUnitChar c = true := hunit.isUnitChar c (hbody ▸ List.mem_cons_self)
  have hdigit : isDigit c = false := by
    by_contra hdigit
    rw [not_isUnitChar_of_isDigit (Bool.not_eq_false _ ▸ hdigit)] at hc
    cases hc
  have hdot : c ≠ '.' := by
    rintro rfl
    exact absurd hc (by decide)
  have hscan : scanNumber (number ++ (unit ++ rest)) = (number, unit ++ rest) := by
    rw [hbody]
    exact scanNumber_append hnumber hdigit hdot
  obtain ⟨d, digits, hdigits⟩ := List.exists_cons_of_ne_nil hnumber.ne_nil
  obtain ⟨htake, hdrop⟩ := takeWhile_unit hunit hrest
  have hempty : unit.isEmpty = false := by
    rw [hbody]
    rfl
  have hnanos := (@unitNanos_eq_ok_iff _ F _ (ofRat q) _).mpr ⟨u, hunit, rfl⟩
  have hstep : number ++ (unit ++ rest) = d :: (digits ++ (unit ++ rest)) := by rw [hdigits]; rfl
  rw [hstep, componentNanos, ← hstep, hscan]
  simp only [hnumber.any, Bool.not_true, Bool.false_eq_true, if_false, parseF64_number hnumber,
    htake, hempty, hdrop]
  change (unitNanos unit (ofRat q) >>= fun nanos =>
      componentNanos text fuel rest (add total nanos)) = _
  rw [hnanos]
  rfl

theorem componentNanos_of_components (text : Str) {fuel : ℕ} {total : F} (h : Components s cs)
    (hfuel : s.length ≤ fuel) : componentNanos text fuel s total =
    .ok (addComponents total cs) := by
  induction h generalizing fuel total with
  | nil => cases fuel <;> rfl
  | @cons number unit rest q u cs hnumber hunit hrest ih =>
      have hlen := List.length_pos_iff.mpr hnumber.ne_nil
      rw [List.length_append, List.length_append] at hfuel
      obtain ⟨fuel, rfl⟩ : ∃ n, fuel = n + 1 := ⟨fuel - 1, by omega⟩
      rw [componentNanos_append text hnumber hunit hrest, ih (by omega)]
      rfl

omit [ReadsLiterals F] in
theorem components_of_componentNanos {text : Str} {fuel : ℕ} {total x : F}
    (hfuel : s.length ≤ fuel) (h : componentNanos text fuel s total = .ok x) :
    ∃ cs, Components s cs := by
  induction fuel generalizing s total with
  | zero =>
      rw [List.length_eq_zero_iff.mp (Nat.le_zero.mp hfuel)]
      exact ⟨[], .nil⟩
  | succ fuel ih =>
      cases s with
      | nil => exact ⟨[], .nil⟩
      | cons c s =>
          rw [componentNanos] at h
          simp only at h
          split at h
          · cases h
          rename_i hany
          rw [Bool.not_eq_true', Bool.not_eq_false] at hany
          obtain ⟨hsplit, q, hnumber⟩ := scanNumber_sound (c :: s) hany
          obtain ⟨number, -, h⟩ := Except.bind_eq_ok_iff.mp h
          split at h
          · cases h
          obtain ⟨nanos, hnanos, h⟩ := Except.bind_eq_ok_iff.mp h
          obtain ⟨u, hunit, -⟩ := unitNanos_eq_ok_iff.mp hnanos
          have hlen := congrArg List.length hsplit
          have hpos := List.length_pos_iff.mpr hnumber.ne_nil
          have hdrop := ((scanNumber (c :: s)).2.dropWhile_sublist isUnitChar).length_le
          rw [List.length_append] at hlen
          obtain ⟨cs, hrest⟩ := ih (by omega) h
          have hcomponents := Components.cons hnumber hunit hrest
          rw [List.takeWhile_append_dropWhile, ← hsplit] at hcomponents
          exact ⟨_, hcomponents⟩

/-! ## Double precision -/

open Double (Near leastNormal roundoff)

/-- What a component can lose below the least normal size. -/
def componentSlack : ℚ := leastNormal * 2 ^ 47

theorem finite_of_foldl_mul {factors : List ℕ} {x : Double}
    (h : (factors.foldl (fun x n => mul x (ofNat n)) x).IsFinite) : x.IsFinite := by
  induction factors generalizing x with
  | nil => exact h
  | cons n factors ih => exact Double.finite_of_mul (ih h)

theorem finite_of_addComponents {x : Double} (h : (addComponents x cs).IsFinite) : x.IsFinite := by
  induction cs generalizing x with
  | nil => exact h
  | cons c cs ih => exact (Double.finite_of_add (ih h)).1

theorem near_foldl_mul {n : ℕ} {t : ℚ} {factors : List ℕ} {x : Double} (h : Near n t x q)
    (hfactors : ∀ c ∈ factors, 0 < c ∧ c < 2 ^ 53)
    (hfin : (factors.foldl (fun x n => mul x (ofNat n)) x).IsFinite) :
    Near (n + factors.length) (t * factors.prod) (factors.foldl (fun x n => mul x (ofNat n)) x)
      (q * factors.prod) := by
  induction factors generalizing n t x q with
  | nil => simpa using h
  | cons c factors ih =>
      obtain ⟨hpos, hlt⟩ := hfactors c List.mem_cons_self
      have hstep := h.mul_ofNat hpos hlt (finite_of_foldl_mul hfin)
      have hrest := ih hstep (fun c hc => hfactors c (List.mem_cons_of_mem _ hc)) hfin
      rw [List.prod_cons, Nat.cast_mul, List.length_cons, ← mul_assoc, ← mul_assoc,
        Nat.add_comm _ 1, ← Nat.add_assoc]
      exact hrest

theorem TimeUnit.factors_bounds (u : TimeUnit) :
    (∀ c ∈ u.factors, 0 < c ∧ c < 2 ^ 53) ∧ u.factors.length ≤ 4 ∧ u.nanos ≤ 2 ^ 47 := by
  cases u <;> decide

theorem Component.near {c : Component} (hq : 0 ≤ c.number)
    (hfin : (c.floatNanos : Double).IsFinite) :
    Near 5 componentSlack c.floatNanos c.nanos := by
  obtain ⟨hfactors, hlen, hnanos⟩ := c.unit.factors_bounds
  have hnear := near_foldl_mul (Double.near_ofRat hq (finite_of_foldl_mul hfin)) hfactors hfin
  refine hnear.mono (by omega) ?_
  have hprod : (c.unit.factors.prod : ℚ) ≤ 2 ^ 47 := by exact_mod_cast hnanos
  exact mul_le_mul_of_nonneg_left hprod Double.leastNormal_pos.le

theorem near_addComponents {n : ℕ} {t : ℚ} {x : Double} (h : Near n t x q) (hn : 5 ≤ n)
    (hcs : ∀ c ∈ cs, 0 ≤ c.number) (hfin : (addComponents x cs).IsFinite) :
    Near (n + cs.length) (t + componentSlack * cs.length) (addComponents x cs)
      (q + exactNanos cs) := by
  induction cs generalizing n t x q with
  | nil => simpa [exactNanos, addComponents] using h
  | cons c cs ih =>
      have hstep : (add x c.floatNanos : Double).IsFinite :=
        finite_of_addComponents (x := add x c.floatNanos) hfin
      have hc := Component.near (hcs c List.mem_cons_self) (Double.finite_of_add hstep).2
      have hrest := ih (h.add (hc.mono hn le_rfl) hstep) (by omega)
        (fun c hc => hcs c (List.mem_cons_of_mem _ hc)) hfin
      have hslack : t + componentSlack * (c :: cs).length =
          t + componentSlack + componentSlack * cs.length := by
        rw [List.length_cons]
        push_cast
        ring
      have hlen : n + (c :: cs).length = n + 1 + cs.length := by
        rw [List.length_cons]
        omega
      have hexact : q + exactNanos (c :: cs) = q + c.nanos + exactNanos cs := by
        rw [exactNanos, List.map_cons, List.sum_cons, add_assoc]
        rfl
      rw [hslack, hlen, hexact]
      exact hrest

theorem near_zero : Near 5 componentSlack zero 0 := by
  have hfin : (Double.ofRat 0).IsFinite := by
    rw [Double.ofRat_zero]
    simp [Double.IsFinite, infMag]
  refine (Double.near_ofRat le_rfl hfin).mono (by norm_num) ?_
  exact le_mul_of_one_le_right Double.leastNormal_pos.le (by norm_num)

theorem near_total (hcs : ∀ c ∈ cs, 0 ≤ c.number) (hfin : (totalF64 cs).IsFinite) :
    Near (5 + cs.length) (componentSlack * (cs.length + 1)) (totalF64 cs) (exactNanos cs) := by
  have h := near_addComponents near_zero le_rfl hcs hfin
  rw [zero_add] at h
  refine h.mono le_rfl (le_of_eq ?_)
  ring

/-! ## Parsing -/

theorem Components.numbers_nonneg (h : Components s cs) : ∀ c ∈ cs, 0 ≤ c.number := by
  induction h with
  | nil => simp
  | cons hnumber _ _ ih =>
      rw [List.forall_mem_cons]
      exact ⟨hnumber.nonneg, ih⟩

theorem DurationText.numbers_nonneg (h : DurationText s cs) : ∀ c ∈ cs, 0 ≤ c.number := by
  cases h with
  | millis hnumber =>
      intro c hc
      rw [List.mem_singleton.mp hc]
      exact hnumber.nonneg
  | components hcomponents _ => exact hcomponents.numbers_nonneg

/-- A text with units has a character that is in no number. -/
theorem Components.exists_unitChar (h : Components s cs) (hne : cs ≠ []) :
    ∃ c ∈ s, isUnitChar c = true := by
  cases h with
  | nil => exact absurd rfl hne
  | cons _ hunit _ =>
      obtain ⟨c, hc⟩ := List.exists_mem_of_ne_nil _ hunit.ne_nil
      exact ⟨c, List.mem_append_right _ (List.mem_append_left _ hc), hunit.isUnitChar c hc⟩

theorem DurationText.head (h : DurationText s cs) :
    s ≠ [] ∧ s.head? ≠ some '-' := by
  have hnumber : ∀ {number rest : Str} {q : ℚ}, NumberText number q →
      number ++ rest ≠ [] ∧ (number ++ rest).head? ≠ some '-' := by
    intro number rest q hnumber
    obtain ⟨c, digits, rfl⟩ := List.exists_cons_of_ne_nil hnumber.ne_nil
    refine ⟨List.cons_ne_nil _ _, fun hhead => ?_⟩
    obtain rfl := Option.some_inj.mp hhead
    rcases hnumber.mem '-' List.mem_cons_self with hdigit | hdot
    · exact absurd hdigit (by decide)
    · exact absurd hdot (by decide)
  cases h with
  | millis h => simpa using @hnumber _ [] _ h
  | components hcomponents hne =>
      cases hcomponents with
      | nil => exact absurd rfl hne
      | cons h _ _ => exact hnumber h

omit [ReadsLiterals F] in
theorem parseComponents_eq_ok [FloatRound F] {nanos : ℕ} (h : parseComponents F s = .ok nanos)
    (hne : s ≠ []) : ∃ cs, DurationText s cs := by
  obtain ⟨total, htotal, -⟩ := Except.bind_eq_ok_iff.mp h
  obtain ⟨cs, hcs⟩ := components_of_componentNanos le_rfl htotal
  refine ⟨cs, .components hcs ?_⟩
  rintro rfl
  cases hcs
  exact hne rfl

/-- Digits around one point. -/
theorem exists_point (hall : (s.all fun c => isDigit c || c = '.') = true)
    (hcount : s.count '.' = 1) :
    ∃ int frac, s = int ++ '.' :: frac ∧ (∀ c ∈ int, isDigit c) ∧ ∀ c ∈ frac, isDigit c := by
  have hmem : '.' ∈ s := List.count_pos_iff.mp (by omega)
  obtain ⟨int, frac, rfl⟩ := List.append_of_mem hmem
  rw [List.count_append, List.count_cons_self] at hcount
  have hdigit : ∀ t : Str, t.count '.' = 0 → (∀ c ∈ t, c ∈ int ++ '.' :: frac) →
      ∀ c ∈ t, isDigit c = true := by
    intro t ht hsub c hc
    have hor := List.all_eq_true.mp hall c (hsub c hc)
    rw [Bool.or_eq_true, decide_eq_true_eq] at hor
    refine hor.resolve_right ?_
    rintro rfl
    exact List.count_eq_zero.mp ht hc
  exact ⟨int, frac, rfl, hdigit int (by omega) fun c hc => List.mem_append_left _ hc,
    hdigit frac (by omega) fun c hc => List.mem_append_right _ (List.mem_cons_of_mem _ hc)⟩

omit [ReadsLiterals F] in
/-- Nothing else is accepted. -/
theorem durationText_of_parseDuration [FloatRound F] {nanos : ℕ}
    (h : parseDurationIn F s = .ok nanos) : ∃ cs, DurationText (Str.trim s) cs := by
  simp only [parseDurationIn] at h
  split at h
  · cases h
  rename_i hempty
  have hne : Str.trim s ≠ [] := by
    intro hnil
    rw [hnil] at hempty
    exact hempty rfl
  split at h
  · cases h
  split at h
  · rename_i hdigits
    exact ⟨_, .millis (.whole hne (List.all_eq_true.mp hdigits))⟩
  split at h
  · rename_i hpoint
    obtain ⟨int, frac, htext, hint, hfrac⟩ := exists_point hpoint.1 hpoint.2
    obtain ⟨millis, hmillis, h⟩ := Except.bind_eq_ok_iff.mp h
    by_cases hdot : int ++ frac = []
    · -- A lone point is no number.
      rw [List.append_eq_nil_iff] at hdot
      rw [htext, hdot.1, hdot.2] at hmillis
      cases hmillis
    · rw [htext]
      exact ⟨_, .millis (.point hdot hint hfrac)⟩
  · exact parseComponents_eq_ok h hne

omit [ReadsLiterals F] in
/-- Digits alone are milliseconds, exactly. -/
theorem parseDuration_digits [FloatRound F] (hne : Str.trim s ≠ [])
    (hdigits : (Str.trim s).all isDigit = true) (nanos : ℕ) : parseDurationIn F s = .ok nanos ↔
      digits (Str.trim s) < 2 ^ 64 ∧ nanos = digits (Str.trim s) * 10 ^ 6 := by
  have hhead : (Str.trim s).head? ≠ some '-' := (DurationText.millis (.whole hne
    (List.all_eq_true.mp hdigits))).head.2
  have hempty : (Str.trim s).isEmpty = false := by simpa using hne
  simp only [parseDurationIn, hempty, Bool.false_eq_true, if_false, hhead, hdigits, if_true]
  split
  · rename_i hlt
    rw [Except.ok.injEq]
    exact ⟨fun h => ⟨hlt, h.symm⟩, fun h => h.2.symm⟩
  · rename_i hge
    exact iff_of_false (fun h => by cases h) fun h => hge h.1

/-! ### Texts that are more than digits -/

theorem parseDurationIn_point [FloatRound F] (h : NumberText (Str.trim s) q)
    (hdigits : (Str.trim s).all isDigit = false) :
    parseDurationIn F s = if FloatRound.isFinite (ofRat q : F) && le zero (ofRat q : F) then
        .ok (fromNanosRounded (mul (ofRat q : F) (ofNat 1000000)))
      else parseComponents F (Str.trim s) := by
  obtain ⟨hne, hhead⟩ := (DurationText.millis h).head
  have hempty : (Str.trim s).isEmpty = false := by simpa using hne
  simp only [parseDurationIn, hempty, Bool.false_eq_true, if_false, hhead, hdigits]
  generalize Str.trim s = t at h hdigits
  cases h with
  | whole hne hint => exact absurd (List.all_eq_true.mpr hint) (Bool.eq_false_iff.mp hdigits)
  | @point int frac hdot hint hfrac =>
      have hnumber := NumberText.point hdot hint hfrac
      have hall : ((int ++ '.' :: frac).all fun c => isDigit c || c = '.') = true := by
        rw [List.all_eq_true]
        intro c hc
        rcases hnumber.mem c hc with hdigit | rfl
        · rw [hdigit, Bool.true_or]
        · decide
      have hcount : (int ++ '.' :: frac).count '.' = 1 := by
        have hzero : ∀ t : Str, (∀ c ∈ t, isDigit c = true) → t.count '.' = 0 := by
          intro t ht
          rw [List.count_eq_zero]
          intro hmem
          exact absurd (ht '.' hmem) (by decide)
        rw [List.count_append, List.count_cons_self, hzero int hint, hzero frac hfrac]
      rw [if_pos ⟨hall, hcount⟩, parseF64_number hnumber]
      rfl

theorem parseDurationIn_components [FloatRound F] (h : Components (Str.trim s) cs) (hcs : cs ≠ []) :
    parseDurationIn F s =
      if !FloatRound.isFinite (addComponents zero cs : F) ||
      lt (addComponents zero cs : F) zero then
        bail ("duration out of range: ".toList ++ Str.trim s)
      else .ok (fromNanosRounded (addComponents zero cs : F)) := by
  obtain ⟨hne, hhead⟩ := (DurationText.components h hcs).head
  have hempty : (Str.trim s).isEmpty = false := by simpa using hne
  obtain ⟨c, hc, hunit⟩ := h.exists_unitChar hcs
  have hdigits : ¬(Str.trim s).all isDigit = true := by
    intro hall
    rw [not_isUnitChar_of_isDigit (List.all_eq_true.mp hall c hc)] at hunit
    cases hunit
  have hall : ¬(((Str.trim s).all fun c => isDigit c || c = '.') = true ∧
      (Str.trim s).count '.' = 1) := by
    rintro ⟨hall, -⟩
    have hor := List.all_eq_true.mp hall c hc
    rw [Bool.or_eq_true, decide_eq_true_eq] at hor
    rcases hor with hdigit | rfl
    · rw [not_isUnitChar_of_isDigit hdigit] at hunit
      cases hunit
    · exact absurd hunit (by decide)
  simp only [parseDurationIn, hempty, Bool.false_eq_true, if_false, hhead, if_neg hdigits]
  rw [if_neg hall, parseComponents, componentNanos_of_components (Str.trim s) h le_rfl]
  change (if _ then _ else _) = _
  split <;> rfl

/-! ### Double precision -/

theorem not_lt_zero {x : Double} (hx : x.IsFinite) (h : x.signBit = false) : lt x zero = false := by
  obtain ⟨m, rfl, -⟩ := Double.exists_num_of_nonneg hx h
  have hzero : (zero : Double) = .num false 0 := Double.ofRat_zero
  rw [hzero]
  change decide (((m : ℕ) : ℤ) < ((0 : ℕ) : ℤ)) = false
  exact decide_eq_false (by omega)

theorem toRat_zero : (zero : Double).toRat = 0 := by
  change (Double.ofRat 0).toRat = 0
  rw [Double.ofRat_zero]
  exact Double.magValue_zero

theorem add_zero_left {x : Double} (hx : x.IsFinite) (h : x.signBit = false) : add zero x = x := by
  have hzero := near_zero
  rw [Double.add_of_nonneg hzero.finite hx hzero.nonneg h]
  obtain ⟨m, rfl, hm⟩ := Double.exists_num_of_nonneg hx h
  have hsum : (zero : Double).toRat + (Double.num false m).toRat = Double.magValue m := by
    rw [toRat_zero, zero_add]
    rfl
  rw [hsum, Double.roundMag_magValue]
  have hmin : min (m : ℕ) infMag = m := min_eq_left (by omega)
  simp only [Double.ofMag, hmin]

/-- Other texts are added up in double precision. -/
theorem parseDuration_of_durationText (h : DurationText (Str.trim s) cs)
    (hdigits : (Str.trim s).all isDigit = false) (hfin : (totalF64 cs).IsFinite) :
    parseDuration s = .ok (fromNanosRounded (totalF64 cs)) := by
  have hnear := near_total h.numbers_nonneg hfin
  rw [parseDuration]
  cases h with
  | @millis q hnumber =>
      have hproduct := (Double.finite_of_add (x := zero) hfin).2
      have hmillis := Double.finite_of_mul hproduct
      have hsign := (Double.near_ofRat hnumber.nonneg hmillis).nonneg
      have hle : le zero (ofRat q : Double) = true := by
        rw [Double.le_iff_toRat near_zero.finite hmillis, toRat_zero]
        exact Double.toRat_nonneg hmillis hsign
      have hread : (FloatRound.isFinite (ofRat q : Double) && le zero (ofRat q : Double)) =
          true := by
        rw [hle, Bool.and_true]
        exact decide_eq_true hmillis
      rw [parseDurationIn_point hnumber hdigits, if_pos hread]
      exact congrArg (fun x => Except.ok (fromNanosRounded x))
        (add_zero_left hproduct (Component.near hnumber.nonneg hproduct).nonneg).symm
  | components hcomponents hcs =>
      have hread : (!FloatRound.isFinite (addComponents zero cs : Double) ||
          lt (addComponents zero cs : Double) zero) = false := by
        rw [Bool.or_eq_false_iff, Bool.not_eq_false']
        exact ⟨decide_eq_true hfin, not_lt_zero hnear.finite hnear.nonneg⟩
      rw [parseDurationIn_components hcomponents hcs, hread]
      rfl

/-- Digits alone are milliseconds and exact, up to the largest 64-bit integer; any other total below
2^64 nanoseconds is accepted, and is the exact sum up to the roundings of double precision and half
a nanosecond. -/
structure ReadsNearly (s : Str) : Prop where
  digits : Str.trim s ≠ [] → (Str.trim s).all isDigit = true → ∀ nanos,
    parseDuration s = .ok nanos ↔
      digits (Str.trim s) < 2 ^ 64 ∧ nanos = digits (Str.trim s) * 10 ^ 6
  sum : ∀ cs, DurationText (Str.trim s) cs → (Str.trim s).all isDigit = false →
    (totalF64 cs).IsFinite → (totalF64 cs).toRat < 2 ^ 64 →
    ∃ nanos, parseDuration s = .ok nanos ∧ nanos = ⌊(totalF64 cs).toRat + 1 / 2⌋₊ ∧
      |(nanos : ℚ) - exactNanos cs| ≤ 1 / 2 +
        ((1 + roundoff) ^ (5 + cs.length) - 1) * (exactNanos cs + componentSlack * (cs.length + 1))

theorem readsNearly (s : Str) : ReadsNearly s := by
  refine ⟨fun hne hdigits nanos => parseDuration_digits hne hdigits nanos, ?_⟩
  intro cs h hdigits hfin hlt
  have hnear := near_total h.numbers_nonneg hfin
  refine ⟨_, parseDuration_of_durationText h hdigits hfin,
    Double.toU64_roundAway hnear.finite hnear.nonneg hlt, ?_⟩
  have hround : (fromNanosRounded (totalF64 cs) : ℚ) = ⌊(totalF64 cs).toRat + 1 / 2⌋₊ :=
    congrArg Nat.cast (Double.toU64_roundAway hnear.finite hnear.nonneg hlt)
  have hnonneg := Double.toRat_nonneg hnear.finite hnear.nonneg
  have hlow := Nat.floor_le (a := (totalF64 cs).toRat + 1 / 2) (by linarith)
  have hhigh := Nat.lt_floor_add_one ((totalF64 cs).toRat + 1 / 2)
  have hhalf : |(fromNanosRounded (totalF64 cs) : ℚ) - (totalF64 cs).toRat| ≤ 1 / 2 := by
    rw [hround, abs_le]
    constructor <;> linarith
  exact (abs_sub_le _ _ _).trans (add_le_add hhalf hnear.error)

/-! ### Exact arithmetic -/

omit [FloatParse F] [ReadsLiterals F] in
theorem foldl_mul_rat (factors : List ℕ) (x : ℚ) :
    factors.foldl (fun x n => mul x (ofNat n)) x = x * factors.prod := by
  induction factors generalizing x with
  | nil => simp
  | cons n factors ih =>
      rw [List.foldl_cons, ih, List.prod_cons, Nat.cast_mul, ← mul_assoc]
      rfl

theorem floatNanos_rat (c : Component) : (c.floatNanos : ℚ) = c.nanos :=
  foldl_mul_rat c.unit.factors c.number

theorem addComponents_rat (x : ℚ) (cs : List Component) :
    addComponents x cs = x + exactNanos cs := by
  induction cs generalizing x with
  | nil => simp [addComponents, exactNanos]
  | cons c cs ih =>
      have hstep : addComponents x (c :: cs) = addComponents (x + c.floatNanos) cs := rfl
      rw [hstep, ih, floatNanos_rat, exactNanos, exactNanos, List.map_cons, List.sum_cons,
        add_assoc]

theorem nanos_millisecond : TimeUnit.millisecond.nanos = 1000000 := by decide

theorem exactNanos_millis (q : ℚ) : exactNanos [⟨q, .millisecond⟩] = q * (1000000 : ℕ) := by
  rw [exactNanos, List.map_singleton, List.sum_singleton, Component.nanos, nanos_millisecond]

/-- The exact sum, rounded to nanoseconds. -/
def roundedNanos (cs : List Component) : ℕ := ⌊exactNanos cs + 1 / 2⌋₊

theorem exactNanos_nonneg (h : ∀ c ∈ cs, 0 ≤ c.number) : 0 ≤ exactNanos cs := by
  refine List.sum_nonneg fun x hx => ?_
  obtain ⟨c, hc, rfl⟩ := List.mem_map.mp hx
  exact mul_nonneg (h c hc) (Nat.cast_nonneg _)

theorem fromNanosRounded_rat {x : ℚ} (hx : 0 ≤ x) :
    fromNanosRounded x = min ⌊x + 1 / 2⌋₊ (2 ^ 64 - 1) := by
  have hround : FloatRound.roundAway x = (⌊x + 1 / 2⌋ : ℚ) := if_pos hx
  rw [fromNanosRounded, hround]
  change min ⌊((⌊x + 1 / 2⌋ : ℤ) : ℚ)⌋₊ (2 ^ 64 - 1) = _
  have hfloor : ⌊((⌊x + 1 / 2⌋ : ℤ) : ℚ)⌋₊ = ⌊x + 1 / 2⌋₊ := by
    rw [← Int.floor_toNat, Int.floor_intCast, Int.floor_toNat]
  rw [hfloor]

/-- Other texts are added up exactly, but their sum saturates. -/
theorem parseDurationIn_rat (h : DurationText (Str.trim s) cs)
    (hdigits : (Str.trim s).all isDigit = false) :
    parseDurationIn ℚ s = .ok (min (roundedNanos cs) (2 ^ 64 - 1)) := by
  have hnonneg := exactNanos_nonneg h.numbers_nonneg
  rw [roundedNanos, ← fromNanosRounded_rat hnonneg]
  cases h with
  | @millis q hnumber =>
      have hle : le (zero : ℚ) (ofRat q) = true := decide_eq_true hnumber.nonneg
      have hsum : exactNanos [⟨q, .millisecond⟩] = mul (ofRat q : ℚ) (ofNat 1000000) :=
        exactNanos_millis q
      rw [parseDurationIn_point hnumber hdigits, hle, hsum]
      rfl
  | components hcomponents hcs =>
      have hsum : addComponents (zero : ℚ) cs = exactNanos cs := by
        rw [addComponents_rat, zero_rat, zero_add]
      have hlt : lt (exactNanos cs) (zero : ℚ) = false := decide_eq_false (not_lt.mpr hnonneg)
      rw [parseDurationIn_components hcomponents hcs, hsum, hlt]
      rfl

end

/-! ## What is read -/

/-- A whole number of milliseconds has 64 bits, and any other duration 64 bits of nanoseconds. -/
def FitsRange (text : Str) (nanos : ℕ) : Prop :=
  if text.all isDigit then digits text < 2 ^ 64 else nanos < 2 ^ 64

/-- In exact arithmetic a text is read just if it is a duration in the range, as its sum. -/
def ReadsExactly (s : Str) : Prop :=
  ∀ nanos, parseDurationIn ℚ s = .ok nanos ↔ ∃ cs, DurationText (Str.trim s) cs ∧
    nanos = roundedNanos cs ∧ FitsRange (Str.trim s) nanos

/-- No duration but digits alone has a sum of 2^64 nanoseconds or more. -/
def SumInRange (s : Str) : Prop :=
  ∀ cs, DurationText (Str.trim s) cs → (Str.trim s).all isDigit = false → roundedNanos cs < 2 ^ 64

section

variable {s text : Str} {q q' : ℚ} {cs cs' : List Component}

/-- A number has one value. -/
theorem NumberText.unique (h : NumberText text q) (h' : NumberText text q') : q = q' := by
  have hread := parseF64_number (F := ℚ) h []
  rw [parseF64_number h' []] at hread
  exact (Except.ok.inj hread).symm

/-- A text has one sum. -/
theorem DurationText.exactNanos_unique (h : DurationText text cs) (h' : DurationText text cs') :
    exactNanos cs = exactNanos cs' := by
  have hmixed {q : ℚ} {cs : List Component} (hnumber : NumberText text q)
      (hcomponents : Components text cs) (hne : cs ≠ []) : False := by
    obtain ⟨c, hc, hunit⟩ := hcomponents.exists_unitChar hne
    rcases hnumber.mem c hc with hdigit | rfl
    · rw [not_isUnitChar_of_isDigit hdigit] at hunit
      cases hunit
    · exact absurd hunit (by decide)
  cases h with
  | millis hnumber =>
      cases h' with
      | millis hnumber' => rw [hnumber.unique hnumber']
      | components hcomponents' hne => exact (hmixed hnumber hcomponents' hne).elim
  | components hcomponents hne =>
      cases h' with
      | millis hnumber' => exact (hmixed hnumber' hcomponents hne).elim
      | components hcomponents' hne' =>
          have hread : componentNanos text text.length text (0 : ℚ) = _ :=
            componentNanos_of_components text hcomponents le_rfl
          rw [componentNanos_of_components text hcomponents' le_rfl, Except.ok.injEq,
            addComponents_rat, addComponents_rat, zero_add, zero_add] at hread
          exact hread.symm

theorem DurationText.roundedNanos_unique (h : DurationText text cs) (h' : DurationText text cs') :
    roundedNanos cs = roundedNanos cs' :=
  congrArg (fun x : ℚ => ⌊x + 1 / 2⌋₊) (h.exactNanos_unique h')

theorem roundedNanos_digits (hne : text ≠ []) (hdigits : text.all isDigit = true) :
    DurationText text [⟨digits text, .millisecond⟩] ∧
      roundedNanos [⟨digits text, .millisecond⟩] = digits text * 10 ^ 6 := by
  refine ⟨.millis (.whole hne (List.all_eq_true.mp hdigits)), ?_⟩
  rw [roundedNanos, exactNanos_millis, ← Nat.cast_mul, Nat.floor_eq_iff (by positivity)]
  have hpower : 10 ^ 6 = 1000000 := by decide
  rw [hpower]
  constructor <;> linarith

/-- A text is read exactly, or refused, but for the sums that saturate; and in double precision as
nearly as its roundings allow. -/
theorem readsExactly_iff (s : Str) : (ReadsExactly s ↔ SumInRange s) ∧ ReadsNearly s := by
  refine ⟨⟨fun hreads cs h hdigits => ?_, fun hrange nanos => ?_⟩, readsNearly s⟩
  · have hread := parseDurationIn_rat h hdigits
    obtain ⟨cs', h', hnanos, -⟩ := (hreads _).mp hread
    rw [← h.roundedNanos_unique h'] at hnanos
    omega
  · cases hdigits : (Str.trim s).all isDigit with
    | true =>
        by_cases hne : Str.trim s = []
        · have hempty : parseDurationIn ℚ s = bail "empty duration string".toList := by
            rw [parseDurationIn, hne]
            rfl
          rw [hempty]
          refine iff_of_false (fun h => by cases h) ?_
          rintro ⟨cs, h, -⟩
          exact h.head.1 hne
        · obtain ⟨hmillis, hrounded⟩ := roundedNanos_digits hne hdigits
          rw [parseDuration_digits hne hdigits]
          constructor
          · rintro ⟨hlt, rfl⟩
            refine ⟨_, hmillis, hrounded.symm, ?_⟩
            rwa [FitsRange, if_pos hdigits]
          · rintro ⟨cs, h, rfl, hfits⟩
            rw [FitsRange, if_pos hdigits] at hfits
            refine ⟨hfits, ?_⟩
            rw [← hrounded, h.roundedNanos_unique hmillis]
    | false =>
        have hfits (nanos : ℕ) : FitsRange (Str.trim s) nanos ↔ nanos < 2 ^ 64 := by
          rw [FitsRange, hdigits, if_neg Bool.false_ne_true]
        constructor
        · intro hread
          obtain ⟨cs, h⟩ := durationText_of_parseDuration hread
          have hlt := hrange cs h hdigits
          rw [parseDurationIn_rat h hdigits, min_eq_left (by omega)] at hread
          obtain rfl := Except.ok.inj hread
          exact ⟨cs, h, rfl, (hfits _).mpr hlt⟩
        · rintro ⟨cs, h, rfl, hlt⟩
          rw [hfits] at hlt
          rw [parseDurationIn_rat h hdigits, min_eq_left (by omega)]

end

section Example

/-- 213504 days are more than 2^64 nanoseconds: the sum is accepted, and saturates. -/
theorem not_readsExactly_saturated : ¬ReadsExactly "213504d".toList ∧
    parseDuration "213504d".toList = .ok (2 ^ 64 - 1) := by
  refine ⟨fun hreads => ?_, by decide +kernel⟩
  have hread : parseDurationIn ℚ "213504d".toList = .ok (2 ^ 64 - 1) := by decide +kernel
  have hnumber : NumberText "213504".toList 213504 := by
    have h :=
      @NumberText.whole "213504".toList (by decide) (List.all_iff_forall_prop.mp (by decide))
    have hvalue : digits "213504".toList = 213504 := by decide
    rwa [hvalue, Nat.cast_ofNat] at h
  have htext : DurationText (Str.trim "213504d".toList) [⟨213504, .day⟩] :=
    .components (.cons hnumber .day .nil) (List.cons_ne_nil _ _)
  obtain ⟨cs, h, hnanos, -⟩ := (hreads _).mp hread
  rw [h.roundedNanos_unique htext] at hnanos
  exact absurd hnanos (by decide +kernel)

end Example

end K6Rs
