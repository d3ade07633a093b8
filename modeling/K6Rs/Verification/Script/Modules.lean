import K6Rs.Verification.Script.Lines

/-! # The rewriting of imports and exports

The rewriter looks at one line at a time, and only at its start: a script is rewritten as it has to
be exactly when each of its lines is one that the rewriter can handle. -/

namespace K6Rs

/-! ## Trivia -/

/-- A character that no trivia begins with. -/
def Solid (c : Char) : Prop := Str.isWhitespace c = false ∧ c ≠ '/'

/-- A comment ends at its first end mark. -/
theorem comment_unique {body body' x x' : Str}
    (hbody : Str.findText ['*', '/'] (body ++ ['*', '/']) = some body.length)
    (hbody' : Str.findText ['*', '/'] (body' ++ ['*', '/']) = some body'.length)
    (h : body ++ ['*', '/'] ++ x = body' ++ ['*', '/'] ++ x') : body = body' ∧ x = x' := by
  have hlen := Str.findText_append hbody x
  rw [h, Str.findText_append hbody' x', Option.some_inj] at hlen
  have hends : (body ++ ['*', '/']).length = (body' ++ ['*', '/']).length := by simp [hlen]
  obtain ⟨hfront, hrest⟩ := List.append_inj h hends
  exact ⟨List.append_cancel_right hfront, hrest⟩

/-- Trivia before a solid character, or at the end of a text, can be read in one way only. -/
theorem Trivia.unique {gap gap' x x' : Str} (hgap : Trivia gap) (hgap' : Trivia gap')
    (hx : ∀ c ∈ x.head?, Solid c) (hx' : ∀ c ∈ x'.head?, Solid c) (h : gap ++ x = gap' ++ x') :
    gap = gap' := by
  induction hgap generalizing gap' with
  | nil =>
      cases hgap' with
      | nil => rfl
      | blank hb' hs' =>
          rw [List.nil_append] at h
          subst h
          have hc := hx _ rfl
          exact absurd (hc.1.symm.trans hb') Bool.false_ne_true
      | comment hbody' hs' =>
          rw [List.nil_append] at h
          subst h
          have hc := hx _ rfl
          exact absurd rfl hc.2
  | blank hb hs ih =>
      cases hgap' with
      | nil =>
          rw [List.nil_append] at h
          subst h
          have hc := hx' _ rfl
          exact absurd (hc.1.symm.trans hb) Bool.false_ne_true
      | blank hb' hs' =>
          obtain ⟨hhead, htail⟩ := List.cons.inj h
          rw [hhead, ih hs' htail]
      | comment hbody' hs' =>
          obtain ⟨hhead, -⟩ := List.cons.inj h
          exact absurd (hhead ▸ hb) (by decide)
  | comment hbody hs ih =>
      cases hgap' with
      | nil =>
          rw [List.nil_append] at h
          subst h
          have hc := hx' _ rfl
          exact absurd rfl hc.2
      | blank hb' hs' =>
          obtain ⟨hhead, -⟩ := List.cons.inj h
          exact absurd (hhead ▸ hb') (by decide)
      | comment hbody' hs' =>
          obtain ⟨-, htail⟩ := List.cons.inj h
          obtain ⟨-, htail⟩ := List.cons.inj htail
          obtain ⟨rfl, hrest⟩ := comment_unique hbody hbody' (by simpa using htail)
          rw [ih hs' hrest]

/-! ## Names -/

theorem not_isWhitespace_of_isAlphanum {c : Char} (h : c.isAlphanum = true) :
    Str.isWhitespace c = false := by
  have hrange : 48 ≤ c.toNat ∧ c.toNat ≤ 122 := by
    change ((decide (c.val ≥ 'A'.val ∧ c.val ≤ 'Z'.val) || c.val ≥ 'a'.val && c.val ≤ 'z'.val) ||
      c.val ≥ '0'.val && c.val ≤ '9'.val) = true at h
    simp only [Bool.or_eq_true, Bool.and_eq_true, decide_eq_true_eq, ge_iff_le,
      UInt32.le_iff_toNat_le] at h
    have hvalue : c.toNat = c.val.toNat := rfl
    have hbounds : 'A'.val.toNat = 65 ∧ 'Z'.val.toNat = 90 ∧ 'a'.val.toNat = 97 ∧
        'z'.val.toNat = 122 ∧ '0'.val.toNat = 48 ∧ '9'.val.toNat = 57 := by decide
    omega
  simp only [Str.isWhitespace, Bool.or_eq_false_iff, Bool.and_eq_false_iff, beq_eq_false_iff_ne,
    decide_eq_false_iff_not]
  omega

theorem solid_of_isIdentifierPart {c : Char} (h : isIdentifierPart c = true) : Solid c := by
  refine ⟨?_, ?_⟩
  · by_contra hblank
    rw [Bool.not_eq_false] at hblank
    simp only [isIdentifierPart, hblank, Bool.not_true, Bool.and_false, Bool.or_false,
      Bool.or_eq_true, decide_eq_true_eq] at h
    rcases h with (h | rfl) | rfl
    · exact Bool.false_ne_true ((not_isWhitespace_of_isAlphanum h).symm.trans hblank)
    · exact absurd hblank (by decide)
    · exact absurd hblank (by decide)
  · rintro rfl
    exact absurd h (by decide)

theorem IsIdentifier.solid {name : Str} (h : IsIdentifier name) (tail : Str) :
    ∀ c ∈ (name ++ tail).head?, Solid c := by
  obtain ⟨hne, hpart⟩ := h
  cases name with
  | nil => exact absurd rfl hne
  | cons c s =>
      intro d hd
      cases hd
      exact solid_of_isIdentifierPart (hpart c List.mem_cons_self)

theorem takeWhile_isIdentifierPart {name tail : Str} (h : IsIdentifier name)
    (htail : EndsName tail) : (name ++ tail).takeWhile isIdentifierPart = name := by
  rw [List.takeWhile_append_of_pos h.2]
  cases tail with
  | nil => simp
  | cons c tail => simp [htail c rfl]

/-- A text begins with one name at most. -/
theorem Leads.unique {name name' s : Str} (h : Leads name s) (h' : Leads name' s)
    (hname : IsIdentifier name) (hname' : IsIdentifier name') : name = name' := by
  obtain ⟨gap, tail, hgap, htail, rfl⟩ := h
  obtain ⟨gap', tail', hgap', htail', heq⟩ := h'
  rw [List.append_assoc, List.append_assoc] at heq
  have hgaps := hgap.unique hgap' (hname.solid tail) (hname'.solid tail') heq
  subst hgaps
  have hnames := congrArg (List.takeWhile isIdentifierPart) (List.append_cancel_left heq)
  rw [takeWhile_isIdentifierPart hname htail, takeWhile_isIdentifierPart hname' htail'] at hnames
  exact hnames

section

variable {ι : Type} (fs : FileSystem ι) {isAlphanumeric : Char → Bool} {line trimmed : Str}

variable {gap rest name value : Str} {keyword : VariableKeyword} {further names : List Str}
  {initialized : Bool}

end

/-! ### Two scripts -/

end K6Rs
