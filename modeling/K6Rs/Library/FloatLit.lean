import Mathlib.Data.List.Basic
import Mathlib.Data.Char
import K6Rs.Library.Text

/-! The float literals a string-to-float conversion accepts: an optional sign, then
`inf`, `infinity` or `nan` in any letter case, or digits with an optional point and
an optional exponent. -/

inductive FloatLit where
  | nan
  | inf (neg : Bool)
  /-- `± mantissa * 10 ^ exp` -/
  | dec (neg : Bool) (mantissa : ℕ) (exp : ℤ)
  deriving DecidableEq

namespace FloatLit

def isDigit (c : Char) : Bool := '0' ≤ c && c ≤ '9'

def digits (s : Str) : ℕ := s.foldl (fun n c => 10 * n + (c.toNat - '0'.toNat)) 0

/-- Whether there is a minus sign, and the text after the sign. -/
def sign : Str → Bool × Str
  | '+' :: s => (false, s)
  | '-' :: s => (true, s)
  | s => (false, s)

/-- An exponent after the digits of a number, or nothing. -/
def exponent : Str → Option ℤ
  | [] => some 0
  | c :: s =>
      if c = 'e' || c = 'E' then
        let (neg, ds) := sign s
        if ds.isEmpty || !ds.all isDigit then none
        else some (if neg then -(digits ds) else digits ds)
      else none

/-- The digits after a point, and the text after them. -/
def fraction : Str → Str × Str
  | '.' :: s => (s.takeWhile isDigit, s.dropWhile isDigit)
  | s => ([], s)

def parseNumber (neg : Bool) (s : Str) : Option FloatLit :=
  let int := s.takeWhile isDigit
  let (frac, rest) := fraction (s.dropWhile isDigit)
  if int.isEmpty && frac.isEmpty then none
  else (exponent rest).map fun e => .dec neg (digits (int ++ frac)) (e - frac.length)

def parse (s : Str) : Option FloatLit :=
  let (neg, body) := sign s
  let word := body.map Char.toLower
  if word = "nan".toList then some .nan
  else if word = "inf".toList || word = "infinity".toList then some (.inf neg)
  else parseNumber neg body

theorem toLower_of_isDigit {c : Char} (h : isDigit c = true) : c.toLower = c := by
  simp only [isDigit, Bool.and_eq_true, decide_eq_true_eq] at h
  refine dif_neg ?_
  rintro ⟨hupper, -⟩
  have hle : 'A' ≤ '9' := le_trans (show 'A' ≤ c from hupper) h.2
  exact absurd hle (by decide)

theorem sign_minus (s : Str) : sign ('-' :: s) = (true, s) := rfl

theorem sign_cons {c : Char} {s : Str} (hplus : c ≠ '+') (hminus : c ≠ '-') :
    sign (c :: s) = (false, c :: s) := by
  unfold sign
  split
  · rename_i h
    cases h
    exact absurd rfl hplus
  · rename_i h
    cases h
    exact absurd rfl hminus
  · rfl

theorem ne_of_digit_or_point {c d : Char} (h : isDigit c = true ∨ c = '.') (hd : isDigit d = false)
    (hdot : d ≠ '.') : c ≠ d := by
  rintro rfl
  rcases h with h | h
  · exact Bool.false_ne_true (hd.symm.trans h)
  · exact hdot h

/-- A text that begins with a digit or a point after its sign is a number. -/
theorem parse_of_sign {s t : Str} {c : Char} {neg : Bool} (hsign : sign s = (neg, c :: t))
    (h : isDigit c = true ∨ c = '.') : parse s = parseNumber neg (c :: t) := by
  have hlower : c.toLower = c := by
    rcases h with h | rfl
    · exact toLower_of_isDigit h
    · rfl
  have hword : ∀ d w, isDigit d = false → d ≠ '.' → (c :: t).map Char.toLower ≠ d :: w := by
    intro d w hd hdot heq
    rw [List.map_cons, hlower] at heq
    exact ne_of_digit_or_point h hd hdot (List.cons.inj heq).1
  have hnan : (c :: t).map Char.toLower ≠ "nan".toList := hword 'n' _ (by decide) (by decide)
  have hinf : (c :: t).map Char.toLower ≠ "inf".toList := hword 'i' _ (by decide) (by decide)
  have hinfinity : (c :: t).map Char.toLower ≠ "infinity".toList :=
    hword 'i' _ (by decide) (by decide)
  rw [parse, hsign]
  simp only [hnan, hinf, hinfinity, if_false, decide_false, Bool.or_false, Bool.false_eq_true]

theorem parse_cons {c : Char} {s : Str} (h : isDigit c = true ∨ c = '.') :
    parse (c :: s) = parseNumber false (c :: s) :=
  parse_of_sign (sign_cons (ne_of_digit_or_point h (by decide) (by decide))
    (ne_of_digit_or_point h (by decide) (by decide))) h

/-! ## Numbers -/

theorem digits_toDigits (n : ℕ) : digits (Nat.toDigits 10 n) = n := Nat.ofDigitChars_ten_toDigits

theorem digits_replicate_append (k : ℕ) (s : Str) :
    digits (List.replicate k '0' ++ s) = digits s := by
  have hzeros : digits (List.replicate k '0') = 0 := Nat.ofDigitChars_replicate_zero
  rw [digits, List.foldl_append, ← digits, hzeros, digits]

theorem digits_append_replicate (s : Str) (k : ℕ) :
    digits (s ++ List.replicate k '0') = digits s * 10 ^ k := by
  have hzeros := @Nat.ofDigitChars_replicate_zero 10 (digits s) k
  rw [digits, List.foldl_append, ← digits, mul_comm]
  exact hzeros

theorem isDigit_toDigits {n : ℕ} {c : Char} (h : c ∈ Nat.toDigits 10 n) : isDigit c = true := by
  have hdigit := Nat.isDigit_of_mem_toDigits (by decide) le_rfl h
  simp only [Char.isDigit, Bool.and_eq_true, decide_eq_true_eq] at hdigit
  rw [isDigit, Bool.and_eq_true, decide_eq_true_iff, decide_eq_true_iff]
  exact hdigit

theorem takeWhile_digits {int rest : Str} (hint : ∀ c ∈ int, isDigit c)
    (hrest : ∀ c ∈ rest.head?, isDigit c = false) : (int ++ rest).takeWhile isDigit = int := by
  rw [List.takeWhile_append_of_pos hint]
  cases rest with
  | nil => simp
  | cons c rest => simp [hrest c rfl]

theorem dropWhile_digits {int rest : Str} (hint : ∀ c ∈ int, isDigit c)
    (hrest : ∀ c ∈ rest.head?, isDigit c = false) : (int ++ rest).dropWhile isDigit = rest := by
  rw [List.dropWhile_append_of_pos hint]
  cases rest with
  | nil => simp
  | cons c rest => simp [hrest c rfl]

/-! ## The grammar -/

/-- An optional sign, and whether it is a minus. -/
inductive IsSign : Str → Bool → Prop where
  | absent : IsSign [] false
  | plus : IsSign ['+'] false
  | minus : IsSign ['-'] true

def IsDigits (s : Str) : Prop := s ≠ [] ∧ ∀ c ∈ s, isDigit c = true

inductive IsExponent : Str → ℤ → Prop where
  | absent : IsExponent [] 0
  | written {c : Char} {sgn ds : Str} {neg : Bool} (hc : c = 'e' ∨ c = 'E') (hsgn : IsSign sgn neg)
      (hds : IsDigits ds) : IsExponent (c :: (sgn ++ ds)) (if neg then -(digits ds) else digits ds)

/-- The digits of a number, with a point somewhere or without, and an exponent. -/
inductive IsNumber (neg : Bool) : Str → FloatLit → Prop where
  | whole {int exp : Str} {e : ℤ} (hint : IsDigits int) (hexp : IsExponent exp e) :
      IsNumber neg (int ++ exp) (.dec neg (digits int) e)
  | point {int frac exp : Str} {e : ℤ} (hdigits : IsDigits (int ++ frac))
        (hexp : IsExponent exp e) :
      IsNumber neg (int ++ '.' :: (frac ++ exp)) (.dec neg (digits (int ++ frac)) (e - frac.length))

/-- The texts of a literal. -/
inductive IsLiteral : Str → FloatLit → Prop where
  | nan {sgn word : Str} {neg : Bool} (hsgn : IsSign sgn neg)
        (hword : word.map Char.toLower = "nan".toList) :
      IsLiteral (sgn ++ word) .nan
  | inf {sgn word : Str} {neg : Bool} (hsgn : IsSign sgn neg)
      (hword : word.map Char.toLower = "inf".toList ∨ word.map Char.toLower = "infinity".toList) :
      IsLiteral (sgn ++ word) (.inf neg)
  | number {sgn number : Str} {neg : Bool} {l : FloatLit} (hsgn : IsSign sgn neg)
      (hnumber : IsNumber neg number l) : IsLiteral (sgn ++ number) l

theorem isSign_sign (s : Str) : ∃ sgn, IsSign sgn (sign s).1 ∧ s = sgn ++ (sign s).2 := by
  unfold sign
  split
  · exact ⟨['+'], .plus, rfl⟩
  · exact ⟨['-'], .minus, rfl⟩
  · exact ⟨[], .absent, rfl⟩

theorem IsSign.sign_append {sgn s : Str} {neg : Bool} (h : IsSign sgn neg)
    (hs : ∀ c ∈ s.head?, c ≠ '+' ∧ c ≠ '-') :
    sign (sgn ++ s) = (neg, s) := by
  cases h with
  | absent =>
      cases s with
      | nil => rfl
      | cons c s => exact sign_cons (hs c rfl).1 (hs c rfl).2
  | plus => rfl
  | minus => rfl

theorem not_sign_of_isDigit {c : Char} (h : isDigit c = true) : c ≠ '+' ∧ c ≠ '-' := by
  constructor <;> (rintro rfl; exact absurd h (by decide))

theorem IsDigits.head {s t : Str} (h : IsDigits s) : ∀ c ∈ (s ++ t).head?, isDigit c = true := by
  obtain ⟨hne, hall⟩ := h
  cases s with
  | nil => exact absurd rfl hne
  | cons d s =>
      intro c hc
      exact hall c (by simp_all)

theorem exponent_eq_some_iff {s : Str} {e : ℤ} : exponent s = some e ↔ IsExponent s e := by
  constructor
  · intro h
    cases s with
    | nil =>
        cases h
        exact .absent
    | cons c s =>
        rw [exponent] at h
        split at h
        · rename_i hc
          obtain ⟨sgn, hsgn, hs⟩ := isSign_sign s
          simp only [Option.ite_none_left_eq_some, Bool.or_eq_true, not_or, List.isEmpty_iff,
            Bool.not_eq_true', Bool.not_eq_false, List.all_eq_true, Option.some.injEq] at h
          obtain ⟨⟨hne, hall⟩, rfl⟩ := h
          have hwritten := IsExponent.written (by simpa using hc) hsgn ⟨hne, hall⟩
          rwa [← hs] at hwritten
        · cases h
  · intro h
    cases h with
    | absent => rfl
    | @written c sgn ds neg hc hsgn hds =>
        have hsign : sign (sgn ++ ds) = (neg, ds) := by
          apply hsgn.sign_append
          intro d hd
          rw [← List.append_nil ds] at hd
          exact not_sign_of_isDigit (hds.head d hd)
        obtain ⟨hne, hall⟩ := hds
        have hcond : (ds.isEmpty || !ds.all isDigit) = false := by
          simpa [hne] using hall
        have hmark : (decide (c = 'e') || decide (c = 'E')) = true := by simpa using hc
        rw [exponent, if_pos hmark, hsign]
        simp only [hcond, Bool.false_eq_true, if_false]

theorem IsExponent.head {s : Str} {e : ℤ} (h : IsExponent s e) : ∀ c ∈ s.head?,
    isDigit c = false ∧ c ≠ '.' := by
  cases h with
  | absent => simp
  | written hc hsgn hds =>
      intro c hhead
      obtain rfl := Option.some.inj hhead
      rcases hc with rfl | rfl <;> decide

theorem fraction_of_isExponent {s : Str} {e : ℤ} (h : IsExponent s e) : fraction s = ([], s) := by
  unfold fraction
  split
  · exact absurd rfl (h.head '.' rfl).2
  · rfl

theorem forall_mem_takeWhile_isDigit (s : Str) : ∀ c ∈ s.takeWhile isDigit, isDigit c = true :=
  fun _ hc => List.mem_takeWhile_imp hc

theorem fraction_cases (s : Str) :
    (∃ frac rest, s = '.' :: (frac ++ rest) ∧ (∀ c ∈ frac, isDigit c = true) ∧
    fraction s = (frac, rest)) ∨ fraction s = ([], s) := by
  unfold fraction
  split
  · rename_i s
    refine .inl ⟨_, _, ?_, forall_mem_takeWhile_isDigit s, rfl⟩
    rw [List.takeWhile_append_dropWhile]
  · exact .inr rfl

theorem parseNumber_eq_some_iff {neg : Bool} {s : Str} {l : FloatLit} :
    parseNumber neg s = some l ↔ IsNumber neg s l := by
  constructor
  · intro h
    have hint := forall_mem_takeWhile_isDigit s
    have hs := @List.takeWhile_append_dropWhile _ isDigit s
    rw [parseNumber] at h
    generalize s.takeWhile isDigit = int at h hint hs
    generalize s.dropWhile isDigit = rest at h hs
    subst hs
    rcases fraction_cases rest with ⟨frac, exp, rfl, hfrac, hfraction⟩ | hfraction <;>
      rw [hfraction] at h
    · simp only [Option.ite_none_left_eq_some, Option.map_eq_some_iff, exponent_eq_some_iff] at h
      obtain ⟨hne, e, hexp, rfl⟩ := h
      refine .point ⟨by simpa using hne, ?_⟩ hexp
      intro c hc
      exact (List.mem_append.mp hc).elim (hint c) (hfrac c)
    · simp only [List.isEmpty_nil, Bool.and_true, Option.ite_none_left_eq_some,
        Option.map_eq_some_iff, exponent_eq_some_iff, List.append_nil, List.length_nil,
        Int.ofNat_zero, Int.sub_zero] at h
      obtain ⟨hne, e, hexp, rfl⟩ := h
      exact .whole ⟨by simpa using hne, hint⟩ hexp
  · intro h
    cases h with
    | @whole int exp e hint hexp =>
        have hhead : ∀ c ∈ exp.head?, isDigit c = false := fun c hc => (hexp.head c hc).1
        have hempty : int.isEmpty = false := by simpa using hint.1
        simp [parseNumber, takeWhile_digits hint.2 hhead, dropWhile_digits hint.2 hhead,
          fraction_of_isExponent hexp, hempty, exponent_eq_some_iff.mpr hexp]
    | @point int frac exp e hdigits hexp =>
        have hint : ∀ c ∈ int, isDigit c = true :=
          fun c hc => hdigits.2 c (List.mem_append_left _ hc)
        have hfrac : ∀ c ∈ frac, isDigit c = true :=
          fun c hc => hdigits.2 c (List.mem_append_right _ hc)
        have hpoint : ∀ c ∈ ('.' :: (frac ++ exp)).head?, isDigit c = false := by simp; decide
        have hhead : ∀ c ∈ exp.head?, isDigit c = false := fun c hc => (hexp.head c hc).1
        have hempty : (int.isEmpty && frac.isEmpty) = false := by simpa using hdigits.1
        simp [parseNumber, takeWhile_digits hint hpoint, dropWhile_digits hint hpoint, fraction,
          takeWhile_digits hfrac hhead, dropWhile_digits hfrac hhead, hempty,
          exponent_eq_some_iff.mpr hexp]

theorem parseNumber_whole {int : Str} (neg : Bool) (hne : int ≠ []) (hint : ∀ c ∈ int, isDigit c) :
    parseNumber neg int = some (.dec neg (digits int) 0) := by
  have h := @IsNumber.whole neg int [] 0 ⟨hne, hint⟩ .absent
  rw [List.append_nil] at h
  exact parseNumber_eq_some_iff.mpr h

theorem parseNumber_point {int frac : Str} (neg : Bool) (hne : int ++ frac ≠ [])
    (hint : ∀ c ∈ int, isDigit c)
    (hfrac : ∀ c ∈ frac, isDigit c) :
    parseNumber neg (int ++ '.' :: frac) =
    some (.dec neg (digits (int ++ frac)) (-frac.length)) := by
  have hall : ∀ c ∈ int ++ frac, isDigit c = true :=
    fun c hc => (List.mem_append.mp hc).elim (hint c) (hfrac c)
  have h := @IsNumber.point neg int frac [] 0 ⟨hne, hall⟩ .absent
  rw [List.append_nil, Int.zero_sub] at h
  exact parseNumber_eq_some_iff.mpr h

/-- A word does not begin with a sign. -/
theorem head_of_word {word target : Str} (h : word.map Char.toLower = target)
    (hplus : '+' ∉ target) (hminus : '-' ∉ target) : ∀ c ∈ word.head?, c ≠ '+' ∧ c ≠ '-' := by
  subst h
  intro c hc
  have hlower : c.toLower ∈ word.map Char.toLower := List.mem_map_of_mem (List.mem_of_head? hc)
  constructor
  · rintro rfl
    exact hplus hlower
  · rintro rfl
    exact hminus hlower

theorem IsNumber.head {neg : Bool} {s : Str} {l : FloatLit} (h : IsNumber neg s l) :
    ∃ c t, s = c :: t ∧ (isDigit c = true ∨ c = '.') := by
  cases h with
  | whole hint hexp =>
      obtain ⟨hne, hall⟩ := hint
      obtain ⟨c, int, rfl⟩ := List.exists_cons_of_ne_nil hne
      exact ⟨c, _, rfl, .inl (hall c List.mem_cons_self)⟩
  | @point int frac exp e hdigits hexp =>
      cases int with
      | nil => exact ⟨'.', _, rfl, .inr rfl⟩
      | cons c int => exact ⟨c, _, rfl, .inl (hdigits.2 c (by simp))⟩

/-- The conversion accepts the texts of a literal and nothing else. -/
theorem parse_eq_some_iff {s : Str} {l : FloatLit} : parse s = some l ↔ IsLiteral s l := by
  constructor
  · intro h
    obtain ⟨sgn, hsgn, hs⟩ := isSign_sign s
    rw [hs]
    simp only [parse] at h
    split at h
    · rename_i hword
      cases h
      exact .nan hsgn hword
    · split at h
      · rename_i hword
        cases h
        rw [Bool.or_eq_true_iff] at hword
        exact .inf hsgn (hword.imp of_decide_eq_true of_decide_eq_true)
      · exact .number hsgn (parseNumber_eq_some_iff.mp h)
  · intro h
    cases h with
    | @nan sgn word neg hsgn hword =>
        rw [parse, hsgn.sign_append (head_of_word hword (by decide) (by decide))]
        simp only [hword, if_true]
    | @inf sgn word neg hsgn hword =>
        have hhead : ∀ c ∈ word.head?, c ≠ '+' ∧ c ≠ '-' :=
          hword.elim (fun hword => head_of_word hword (by decide) (by decide))
            (fun hword => head_of_word hword (by decide) (by decide))
        rw [parse, hsgn.sign_append hhead]
        rcases hword with hword | hword <;> (simp only [hword]; rfl)
    | @number sgn number neg l hsgn hnumber =>
        obtain ⟨c, t, rfl, hc⟩ := hnumber.head
        have hhead : c ≠ '+' ∧ c ≠ '-' :=
          ⟨ne_of_digit_or_point hc (by decide) (by decide),
            ne_of_digit_or_point hc (by decide) (by decide)⟩
        have hsign : sign (sgn ++ c :: t) = (neg, c :: t) := hsgn.sign_append (by simpa using hhead)
        rw [parse_of_sign hsign hc, parseNumber_eq_some_iff.mpr hnumber]

theorem IsLiteral.ne_nil {s : Str} {l : FloatLit} (h : IsLiteral s l) : s ≠ [] := by
  rintro rfl
  have hnone : parse [] = none := by decide
  exact Option.some_ne_none l ((parse_eq_some_iff.mpr h).symm.trans hnone)

/-! ## The characters of a literal -/

/-- Whether some literal contains the character. -/
def isLiteralChar (c : Char) : Bool :=
  isDigit c || c == '+' || c == '-' || c == '.' || "einftya".toList.contains c.toLower

theorem isLiteralChar_of_isDigit {c : Char} (h : isDigit c = true) : isLiteralChar c = true := by
  simp [isLiteralChar, h]

theorem IsSign.isLiteralChar {s : Str} {neg : Bool} (h : IsSign s neg) : ∀ c ∈ s,
    isLiteralChar c = true := by
  cases h <;> exact List.all_iff_forall_prop.mp (by decide)

theorem IsExponent.isLiteralChar {s : Str} {e : ℤ} (h : IsExponent s e) : ∀ c ∈ s,
    isLiteralChar c = true := by
  cases h with
  | absent => simp
  | written hc hsgn hds =>
      intro c hmem
      rcases List.mem_cons.mp hmem with rfl | hmem
      · rcases hc with rfl | rfl <;> decide
      · exact (List.mem_append.mp hmem).elim (hsgn.isLiteralChar c)
          (fun h => isLiteralChar_of_isDigit (hds.2 c h))

theorem IsNumber.isLiteralChar {neg : Bool} {s : Str} {l : FloatLit} (h : IsNumber neg s l) :
    ∀ c ∈ s, isLiteralChar c = true := by
  intro c hmem
  cases h with
  | whole hint hexp =>
      exact (List.mem_append.mp hmem).elim (fun h => isLiteralChar_of_isDigit (hint.2 c h))
        (hexp.isLiteralChar c)
  | @point int frac exp e hdigits hexp =>
      have hcases : c = '.' ∨ c ∈ int ++ frac ∨ c ∈ exp := by
        simp only [List.mem_append, List.mem_cons] at hmem ⊢
        tauto
      rcases hcases with rfl | h | h
      · decide
      · exact isLiteralChar_of_isDigit (hdigits.2 c h)
      · exact hexp.isLiteralChar c h

theorem isLiteralChar_of_word {word target : Str} (h : word.map Char.toLower = target)
    (htarget : ∀ c ∈ target, "einftya".toList.contains c = true) : ∀ c ∈ word,
    isLiteralChar c = true := by
  intro c hc
  have hlower := htarget c.toLower (h ▸ List.mem_map_of_mem hc)
  rw [isLiteralChar, hlower, Bool.or_true]

theorem IsLiteral.isLiteralChar {s : Str} {l : FloatLit} (h : IsLiteral s l) : ∀ c ∈ s,
    isLiteralChar c = true := by
  intro c hmem
  cases h with
  | nan hsgn hword =>
      have hnan : ∀ c ∈ "nan".toList, "einftya".toList.contains c = true :=
        List.all_iff_forall_prop.mp (by decide)
      exact (List.mem_append.mp hmem).elim (hsgn.isLiteralChar c)
        (isLiteralChar_of_word hword hnan c)
  | inf hsgn hword =>
      apply (List.mem_append.mp hmem).elim (hsgn.isLiteralChar c)
      rcases hword with hword | hword
      · exact isLiteralChar_of_word hword (List.all_iff_forall_prop.mp (by decide)) c
      · exact isLiteralChar_of_word hword (List.all_iff_forall_prop.mp (by decide)) c
  | number hsgn hnumber =>
      exact (List.mem_append.mp hmem).elim (hsgn.isLiteralChar c) (hnumber.isLiteralChar c)

theorem toLower_of_isWhitespace {c : Char} (h : Str.isWhitespace c = true) : c.toLower = c := by
  refine dif_neg ?_
  rintro ⟨hlow, hhigh⟩
  have hge : 65 ≤ c.toNat := hlow
  have hle : c.toNat ≤ 90 := hhigh
  simp only [Str.isWhitespace, Bool.or_eq_true, Bool.and_eq_true, decide_eq_true_eq,
    beq_iff_eq] at h
  omega

theorem not_isWhitespace_of_isLiteralChar {c : Char} (h : isLiteralChar c = true) :
    Str.isWhitespace c = false := by
  rw [← Bool.not_eq_true]
  intro hspace
  have hdigit : isDigit c = false := by
    rw [← Bool.not_eq_true]
    intro hdigit
    simp only [isDigit, Bool.and_eq_true, decide_eq_true_eq] at hdigit
    have hge : 48 ≤ c.toNat := hdigit.1
    have hle : c.toNat ≤ 57 := hdigit.2
    simp only [Str.isWhitespace, Bool.or_eq_true, Bool.and_eq_true, decide_eq_true_eq,
      beq_iff_eq] at hspace
    omega
  rw [isLiteralChar, hdigit, toLower_of_isWhitespace hspace] at h
  have hmem : c ∈ '+' :: '-' :: '.' :: "einftya".toList := by simpa [or_assoc] using h
  have hnone : ∀ d ∈ '+' :: '-' :: '.' :: "einftya".toList, Str.isWhitespace d = false :=
    List.all_iff_forall_prop.mp (by decide)
  exact Bool.false_ne_true ((hnone c hmem).symm.trans hspace)

end FloatLit
