import K6Rs.Library.JsonGrammar

/-! A parser of JSON texts, and what its scanners of numbers and strings take. -/

namespace JsonTree

/-! ## The parser -/

def isBlankChar (c : Char) : Bool := c = ' ' || c = '\t' || c = '\n' || c = '\r'

def skipBlanks (s : Str) : Str := s.dropWhile isBlankChar

def isNumberChar (c : Char) : Bool :=
  c.isDigit || c = '-' || c = '+' || c = '.' || c = 'e' || c = 'E'

def dropSign : Str → Str
  | '+' :: ds => ds
  | '-' :: ds => ds
  | ds => ds

def isExponent : Str → Bool
  | [] => true
  | e :: t => (e = 'e' || e = 'E') && !(dropSign t).isEmpty && (dropSign t).all Char.isDigit

def isFraction : Str → Bool
  | '.' :: t => !(t.takeWhile Char.isDigit).isEmpty && isExponent (t.dropWhile Char.isDigit)
  | t => isExponent t

def dropMinus : Str → Str
  | '-' :: t => t
  | t => t

/-- Whether the whole text is that of a number. -/
def isNumber (text : Str) : Bool :=
  let int := (dropMinus text).takeWhile Char.isDigit
  !int.isEmpty && (int = ['0'] || int.head? ≠ some '0') &&
    isFraction ((dropMinus text).dropWhile Char.isDigit)

/-- The character of an escape of six characters, or of two such escapes, and what follows. -/
def parseUnicode (n : ℕ) (s : Str) : Option (Char × Str) :=
  if n < 0xD800 ∨ 0xDFFF < n then some (.ofNat n, s)
  else
    match s with
    | '\\' :: 'u' :: a :: b :: c :: d :: rest => do
        let low ← hexQuad a b c d
        if n ≤ 0xDBFF ∧ 0xDC00 ≤ low ∧ low ≤ 0xDFFF then
          some (.ofNat (0x10000 + 0x400 * (n - 0xD800) + (low - 0xDC00)), rest)
        else none
    | _ => none

/-- The next character of a string, and what follows it. -/
def parseChar : Str → Option (Char × Str)
  | '\\' :: 'u' :: a :: b :: c :: d :: rest => (hexQuad a b c d).bind fun n => parseUnicode n rest
  | '\\' :: e :: rest => (simpleEscape e).map fun c => (c, rest)
  | c :: rest => if c ≠ '"' ∧ c ≠ '\\' ∧ 32 ≤ c.toNat then some (c, rest) else none
  | [] => none

/-- The string up to its closing quote, and what follows that. -/
def parseBody : ℕ → Str → Option (Str × Str)
  | 0, _ => none
  | fuel + 1, s =>
      if s.head? = some '"' then some ([], s.tail)
      else do
        let (c, s) ← parseChar s
        let (body, s) ← parseBody fuel s
        return (c :: body, s)

def parseString (s : Str) : Option (Str × Str) := parseBody s.length s

/-- Items between commas, up to the closing bracket. -/
def parseItems {α : Type} (item : Str → Option (α × Str)) (close : Char) :
    ℕ → Str → Option (List α × Str)
  | 0, _ => none
  | fuel + 1, s => do
      let (a, s) ← item s
      let s := skipBlanks s
      if s.head? = some ',' then
        let (as, s) ← parseItems item close fuel s.tail
        return (a :: as, s)
      else if s.head? = some close then return ([a], s.tail)
      else none

def parseMember (value : Str → Option (JsonTree × Str)) (s : Str) :
    Option ((Str × JsonTree) × Str) :=
  let s := skipBlanks s
  if s.head? = some '"' then do
    let (key, s) ← parseString s.tail
    let s := skipBlanks s
    if s.head? = some ':' then
      let (v, s) ← value s.tail
      return ((key, v), s)
    else none
  else none

def parseNumber (s : Str) : Option (JsonTree × Str) :=
  let text := s.takeWhile isNumberChar
  if isNumber text then some (.number text, s.dropWhile isNumberChar) else none

def parseValue : ℕ → Str → Option (JsonTree × Str)
  | 0, _ => none
  | fuel + 1, s =>
      let s := skipBlanks s
      if s.head? = some '"' then (parseString s.tail).map fun (body, s) => (.string body, s)
      else if s.head? = some '[' then
        let rest := skipBlanks s.tail
        if rest.head? = some ']' then some (.array [], rest.tail)
        else
          (parseItems (parseValue fuel) ']' fuel s.tail).map fun (items, s) => (.array items, s)
      else if s.head? = some '{' then
        let rest := skipBlanks s.tail
        if rest.head? = some '}' then some (.object [], rest.tail)
        else
          (parseItems (parseMember (parseValue fuel)) '}' fuel s.tail).map fun (members, s) =>
            (.object members, s)
      else if "true".toList.isPrefixOf s then some (.bool true, s.drop 4)
      else if "false".toList.isPrefixOf s then some (.bool false, s.drop 5)
      else if "null".toList.isPrefixOf s then some (.null, s.drop 4)
      else parseNumber s

/-- `JSON.parse`, where it does not throw. -/
def parse (text : Str) : Option JsonTree :=
  match parseValue text.length text with
  | some (v, rest) => if skipBlanks rest = [] then some v else none
  | none => none

/-! ## Numbers -/

theorem takeWhile_digits {ds rest : Str} (hds : ∀ c ∈ ds, c.isDigit = true)
    (hrest : ∀ c ∈ rest.head?, c.isDigit = false) :
    (ds ++ rest).takeWhile Char.isDigit = ds ∧ (ds ++ rest).dropWhile Char.isDigit = rest := by
  rw [List.takeWhile_append_of_pos hds, List.dropWhile_append_of_pos hds]
  cases rest with
  | nil => simp
  | cons c rest =>
      have hc : c.isDigit = false := hrest c rfl
      simp [hc]

theorem exists_sign (t : Str) :
    ∃ sign, t = sign ++ dropSign t ∧ (sign = [] ∨ sign = ['+'] ∨ sign = ['-']) := by
  unfold dropSign
  split
  · exact ⟨['+'], rfl, .inr (.inl rfl)⟩
  · exact ⟨['-'], rfl, .inr (.inr rfl)⟩
  · exact ⟨[], rfl, .inl rfl⟩

theorem IsDigits.head {ds : Str} (h : IsDigits ds) :
    ∃ c rest, ds = c :: rest ∧ c.isDigit = true := by
  obtain ⟨c, rest, rfl⟩ := List.exists_cons_of_ne_nil h.1
  exact ⟨c, rest, rfl, h.2 c List.mem_cons_self⟩

theorem dropSign_append {sign ds : Str} (hsign : sign = [] ∨ sign = ['+'] ∨ sign = ['-'])
    (hds : IsDigits ds) : dropSign (sign ++ ds) = ds := by
  rcases hsign with rfl | rfl | rfl
  · obtain ⟨c, rest, rfl, hc⟩ := hds.head
    unfold dropSign
    split
    · rename_i heq
      cases heq
      exact absurd hc (by decide)
    · rename_i heq
      cases heq
      exact absurd hc (by decide)
    · rfl
  · rfl
  · rfl

theorem isExponent_iff {t : Str} : isExponent t = true ↔
    t = [] ∨ ∃ e sign ds, t = e :: (sign ++ ds) ∧ (e = 'e' ∨ e = 'E') ∧
      (sign = [] ∨ sign = ['+'] ∨ sign = ['-']) ∧ IsDigits ds := by
  cases t with
  | nil => simp [isExponent]
  | cons e t =>
      simp only [isExponent, Bool.and_eq_true, Bool.or_eq_true, decide_eq_true_eq,
        Bool.not_eq_true', List.isEmpty_eq_false_iff, List.all_eq_true, reduceCtorEq, false_or]
      constructor
      · rintro ⟨⟨he, hne⟩, hdigits⟩
        obtain ⟨sign, ht, hsign⟩ := exists_sign t
        exact ⟨e, sign, dropSign t, by rw [← ht], he, hsign, hne, hdigits⟩
      · rintro ⟨_, sign, ds, ⟨⟩, he, hsign, hds⟩
        rw [dropSign_append hsign hds]
        exact ⟨⟨he, hds.1⟩, hds.2⟩

/-- What follows the digits before it is no digit. -/
theorem head_of_isExponent {t : Str} (h : isExponent t = true) :
    ∀ c ∈ t.head?, c.isDigit = false ∧ c ≠ '.' := by
  rcases isExponent_iff.mp h with rfl | ⟨e, sign, ds, rfl, he, -⟩
  · simp
  · rintro c ⟨⟩
    rcases he with rfl | rfl <;> decide

theorem isFraction_iff {t : Str} : isFraction t = true ↔
    ∃ frac exp, t = frac ++ exp ∧ (frac = [] ∨ ∃ ds, frac = '.' :: ds ∧ IsDigits ds) ∧
      isExponent exp = true := by
  constructor
  · intro h
    unfold isFraction at h
    split at h
    · rename_i t
      simp only [Bool.and_eq_true, Bool.not_eq_true', List.isEmpty_eq_false_iff] at h
      refine ⟨'.' :: t.takeWhile Char.isDigit, t.dropWhile Char.isDigit, ?_, .inr ⟨_, rfl, h.1, ?_⟩,
        h.2⟩
      · rw [List.cons_append, List.takeWhile_append_dropWhile]
      · exact fun c hc => List.mem_takeWhile_imp hc
    · exact ⟨[], t, rfl, .inl rfl, h⟩
  · rintro ⟨frac, exp, rfl, rfl | ⟨ds, rfl, hds⟩, hexp⟩
    · have hhead := head_of_isExponent hexp
      unfold isFraction
      split
      · rename_i heq
        rw [List.nil_append] at heq
        rw [heq] at hhead
        exact absurd rfl (hhead '.' rfl).2
      · exact hexp
    · have hsplit := takeWhile_digits hds.2 fun c hc => (head_of_isExponent hexp c hc).1
      simp [isFraction, hsplit, hexp, hds.1]

theorem head_of_isFraction {t : Str} (h : isFraction t = true) : ∀ c ∈ t.head?,
    c.isDigit = false := by
  obtain ⟨frac, exp, rfl, rfl | ⟨ds, rfl, -⟩, hexp⟩ := isFraction_iff.mp h
  · exact fun c hc => (head_of_isExponent hexp c hc).1
  · rintro c ⟨⟩
    decide

theorem exists_minus (t : Str) : ∃ sign, t = sign ++ dropMinus t ∧ (sign = [] ∨ sign = ['-']) := by
  unfold dropMinus
  split
  · exact ⟨['-'], rfl, .inr rfl⟩
  · exact ⟨[], rfl, .inl rfl⟩

theorem dropMinus_append {sign t : Str} (hsign : sign = [] ∨ sign = ['-'])
    (ht : ∀ c ∈ t.head?, c.isDigit = true) : dropMinus (sign ++ t) = t := by
  rcases hsign with rfl | rfl
  · unfold dropMinus
    split
    · rename_i heq
      rw [List.nil_append] at heq
      rw [heq] at ht
      exact absurd (ht '-' rfl) (by decide)
    · rfl
  · rfl

theorem isNumber_iff {text : Str} : isNumber text = true ↔ IsNumber text := by
  simp only [isNumber, Bool.and_eq_true, Bool.not_eq_true', List.isEmpty_eq_false_iff,
    Bool.or_eq_true, decide_eq_true_eq]
  constructor
  · rintro ⟨⟨hne, hzero⟩, hfraction⟩
    obtain ⟨sign, htext, hsign⟩ := exists_minus text
    obtain ⟨frac, exp, hrest, hfrac, hexp⟩ := isFraction_iff.mp hfraction
    refine ⟨sign, _, frac, exp, ?_, hsign, ⟨hne, fun c hc => List.mem_takeWhile_imp hc⟩, hzero,
      hfrac, isExponent_iff.mp hexp⟩
    rw [List.append_assoc, List.append_assoc, ← hrest, List.takeWhile_append_dropWhile]
    exact htext
  · rintro ⟨sign, int, frac, exp, rfl, hsign, hint, hzero, hfrac, hexp⟩
    have hfraction : isFraction (frac ++ exp) = true :=
      isFraction_iff.mpr ⟨frac, exp, rfl, hfrac, isExponent_iff.mpr hexp⟩
    have hsplit := takeWhile_digits hint.2 (head_of_isFraction hfraction)
    have hdrop : dropMinus (sign ++ int ++ frac ++ exp) = int ++ (frac ++ exp) := by
      rw [List.append_assoc, List.append_assoc]
      refine dropMinus_append hsign ?_
      obtain ⟨c, rest, rfl, hc⟩ := hint.head
      rintro _ ⟨⟩
      exact hc
    rw [hdrop, hsplit.1, hsplit.2]
    exact ⟨⟨hint.1, hzero⟩, hfraction⟩

/-! ## Strings -/

theorem parseUnicode_sound {a b c d e : Char} {n : ℕ} {s rest : Str}
    (hquad : hexQuad a b c d = some n) (h : parseUnicode n s = some (e, rest)) :
    ∃ text, '\\' :: 'u' :: a :: b :: c :: d :: s = text ++ rest ∧
      ∀ t u, StringBody t u → StringBody (text ++ t) (e :: u) := by
  unfold parseUnicode at h
  split at h
  · rename_i hsurrogate
    obtain ⟨rfl, rfl⟩ := Prod.mk.inj (Option.some.inj h)
    exact ⟨['\\', 'u', a, b, c, d], rfl, fun t u hrest => .unicode hquad hsurrogate hrest⟩
  · rename_i hsurrogate
    split at h
    · rename_i a' b' c' d' rest'
      obtain ⟨low, hlow, h⟩ := Option.bind_eq_some_iff.mp h
      split at h
      · rename_i hrange
        obtain ⟨rfl, rfl⟩ := Prod.mk.inj (Option.some.inj h)
        exact ⟨['\\', 'u', a, b, c, d, '\\', 'u', a', b', c', d'], rfl, fun t u hrest =>
          .pair hquad hlow ⟨by omega, hrange.1⟩ hrange.2 hrest⟩
      · cases h
    · cases h

theorem parseChar_sound {c : Char} {s rest : Str} (h : parseChar s = some (c, rest)) :
    ∃ text, s = text ++ rest ∧ ∀ t u, StringBody t u → StringBody (text ++ t) (c :: u) := by
  unfold parseChar at h
  split at h
  · obtain ⟨n, hquad, h⟩ := Option.bind_eq_some_iff.mp h
    exact parseUnicode_sound hquad h
  · rename_i e rest' _
    obtain ⟨c', hescape, h⟩ := Option.map_eq_some_iff.mp h
    cases h
    exact ⟨['\\', e], rfl, fun t u hrest => .escape hescape hrest⟩
  · split at h
    · rename_i hplain
      cases h
      exact ⟨[_], rfl, fun t u hrest => .plain hplain.1 hplain.2.1 hplain.2.2 hrest⟩
    · cases h
  · cases h

theorem parseBody_sound {fuel : ℕ} {s body rest : Str} (h : parseBody fuel s = some (body, rest)) :
    ∃ text, s = text ++ '"' :: rest ∧ StringBody text body := by
  induction fuel generalizing s body with
  | zero => cases h
  | succ fuel ih =>
      rw [parseBody] at h
      split at h
      · rename_i hquote
        obtain ⟨tail, rfl⟩ := List.head?_eq_some_iff.mp hquote
        cases h
        exact ⟨[], rfl, .nil⟩
      · obtain ⟨⟨c, s'⟩, hchar, h⟩ := Option.bind_eq_some_iff.mp h
        obtain ⟨⟨body', s''⟩, hbody, h⟩ := Option.bind_eq_some_iff.mp h
        cases h
        obtain ⟨text, rfl, hextend⟩ := parseChar_sound hchar
        obtain ⟨text', rfl, hrest⟩ := ih hbody
        exact ⟨text ++ text', (List.append_assoc ..).symm, hextend _ _ hrest⟩

theorem parseBody_cons {fuel : ℕ} {c d : Char} {s s' body rest : Str} (hquote : c ≠ '"')
    (hchar : parseChar (c :: s) = some (d, s')) (hbody : parseBody fuel s' = some (body, rest)) :
    parseBody (fuel + 1) (c :: s) = some (d :: body, rest) := by
  rw [parseBody, if_neg (by simpa using hquote)]
  simp [hchar, hbody]

theorem parseBody_complete {text body : Str} (h : StringBody text body) (rest : Str) {fuel : ℕ}
    (hfuel : text.length < fuel) : parseBody fuel (text ++ '"' :: rest) = some (body, rest) := by
  induction h generalizing fuel with
  | nil =>
      obtain ⟨fuel, rfl⟩ := Nat.exists_eq_succ_of_ne_zero (Nat.ne_of_gt hfuel)
      rfl
  | @plain c t s hquote hbackslash hcontrol _ ih =>
      obtain ⟨fuel, rfl⟩ := Nat.exists_eq_succ_of_ne_zero (Nat.ne_zero_of_lt hfuel)
      refine parseBody_cons hquote ?_ (ih (by simpa using hfuel))
      rw [parseChar.eq_def]
      split
      · rename_i heq
        exact absurd (List.cons.inj heq).1 hbackslash
      · rename_i heq
        exact absurd (List.cons.inj heq).1 hbackslash
      · rename_i heq
        cases heq
        exact if_pos ⟨hquote, hbackslash, hcontrol⟩
      · rename_i heq
        cases heq
  | @escape e c t s h _ ih =>
      obtain ⟨fuel, rfl⟩ := Nat.exists_eq_succ_of_ne_zero (Nat.ne_zero_of_lt hfuel)
      simp only [List.length_cons] at hfuel
      refine parseBody_cons (by decide) ?_ (ih (by omega))
      rw [parseChar.eq_def]
      split
      · rename_i heq
        rw [(List.cons.inj (List.cons.inj heq).2).1] at h
        cases h
      · rename_i heq
        obtain ⟨rfl, rfl⟩ := List.cons.inj (List.cons.inj heq).2
        rw [h]
        rfl
      · rename_i hother heq
        obtain ⟨rfl, rfl⟩ := List.cons.inj heq
        exact (hother e _ rfl rfl).elim
      · rename_i heq
        cases heq
  | @unicode a b c d n t s h hsurrogate _ ih =>
      obtain ⟨fuel, rfl⟩ := Nat.exists_eq_succ_of_ne_zero (Nat.ne_zero_of_lt hfuel)
      simp only [List.length_cons] at hfuel
      refine parseBody_cons (by decide) ?_ (ih (by omega))
      simp [parseChar, h, parseUnicode, hsurrogate]
  | @pair a b c d high a' b' c' d' low t s hhigh hlow hhighRange hlowRange _ ih =>
      obtain ⟨fuel, rfl⟩ := Nat.exists_eq_succ_of_ne_zero (Nat.ne_zero_of_lt hfuel)
      simp only [List.length_cons] at hfuel
      refine parseBody_cons (by decide) ?_ (ih (by omega))
      have hnot : ¬(high < 0xD800 ∨ 0xDFFF < high) := by omega
      simp [parseChar, hhigh, hlow, parseUnicode, hnot, hhighRange.2, hlowRange]

theorem parseString_complete {text body : Str} (h : StringBody text body) (rest : Str) :
    parseString (text ++ '"' :: rest) = some (body, rest) := by
  refine parseBody_complete h rest ?_
  rw [List.length_append, List.length_cons]
  omega

end JsonTree
