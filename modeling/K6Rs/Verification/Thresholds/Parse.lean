import K6Rs.Model.Thresholds

/-! The threshold expressions that are accepted. Every slice lies within the text, and the
accepted texts are those of the grammar, each with the one condition it writes. -/

namespace K6Rs

variable {F : Type} [FloatParse F]

/-! ## The grammar -/

/-- The texts of a statistic: its name, or `p(x)` with a float literal `x`. -/
inductive IsStat : Str → ThresholdStat F → Prop where
  | avg : IsStat "avg".toList .avg
  | min : IsStat "min".toList .min
  | max : IsStat "max".toList .max
  | med : IsStat "med".toList .med
  | count : IsStat "count".toList .count
  | rate : IsStat "rate".toList .rate
  | value : IsStat "value".toList .value
  | percentile {x : Str} {p : FloatLit} (hx : FloatLit.IsLiteral x p) :
      IsStat ('p' :: '(' :: (x ++ [')'])) (.percentile (FloatParse.ofLit p))

def IsSpace (s : Str) : Prop := ∀ c ∈ s, Str.isWhitespace c = true

/-- The texts `ws stat ws op ws number ws` of a condition. -/
inductive IsCondition : Str → ThresholdCondition F → Prop where
  | mk {ws₀ stat ws₁ op ws₂ number ws₃ : Str} {s : ThresholdStat F} {o : ThresholdOp} {l : FloatLit}
      (h₀ : IsSpace ws₀) (hstat : IsStat stat s) (h₁ : IsSpace ws₁) (hop : (op, o) ∈ opPatterns)
      (h₂ : IsSpace ws₂) (hnumber : FloatLit.IsLiteral number l) (h₃ : IsSpace ws₃) :
      IsCondition (ws₀ ++ stat ++ ws₁ ++ op ++ ws₂ ++ number ++ ws₃) ⟨s, o, FloatParse.ofLit l⟩

theorem parseFloat_eq_some_iff {s : Str} {x : F} :
    parseFloat s = some x ↔ ∃ l, FloatLit.IsLiteral s l ∧ FloatParse.ofLit l = x := by
  simp only [parseFloat, Option.map_eq_some_iff, FloatLit.parse_eq_some_iff]

/-! ## The statistic -/

theorem slice_parens (x : Str) :
    Str.slice ('p' :: '(' :: (x ++ [')'])) 2 (('p' :: '(' :: (x ++ [')'])).length - 1) = x := by
  simp [Str.slice]

theorem byteSlice_parens (x : Str) : Str.byteSlice ('p' :: '(' :: (x ++ [')'])) 2
    (Str.utf8Len ('p' :: '(' :: (x ++ [')'])) - 1) = some x := by
  have hp : 'p'.utf8Size = 1 := rfl
  have hopen : '('.utf8Size = 1 := rfl
  have hclose : ')'.utf8Size = 1 := rfl
  have hslice := Str.byteSlice_append ['p', '('] x [')']
  have hlen : Str.utf8Len ('p' :: '(' :: (x ++ [')'])) - 1 = Str.utf8Len (['p', '('] ++ x) := by
    simp only [Str.utf8Len, Str.utf8Len_append, List.cons_append, List.nil_append, hp, hopen,
      hclose]
    omega
  rw [hlen]
  exact hslice

/-- What stands between `p(` and `)`. -/
theorem exists_parens {s : Str} (h : ("p(".toList.isPrefixOf s && [')'].isSuffixOf s) = true) :
    ∃ x, s = 'p' :: '(' :: (x ++ [')']) := by
  obtain ⟨hpre, hsuf⟩ := Bool.and_eq_true_iff.mp h
  obtain ⟨t, rfl⟩ := List.isPrefixOf_iff_prefix.mp hpre
  obtain ⟨u, hu⟩ := List.isSuffixOf_iff_suffix.mp hsuf
  cases t using List.reverseRecOn with
  | nil => exact absurd (congrArg List.getLast? hu) (by simp)
  | append_singleton t c =>
      have hlast := congrArg List.getLast? hu
      rw [← List.append_assoc, List.getLast?_concat, List.getLast?_concat,
        Option.some.injEq] at hlast
      exact ⟨t, by rw [← hlast]; rfl⟩

theorem parens_call (x : Str) :
    ("p(".toList.isPrefixOf ('p' :: '(' :: (x ++ [')'])) &&
      [')'].isSuffixOf ('p' :: '(' :: (x ++ [')']))) = true := by
  rw [Bool.and_eq_true_iff, List.isPrefixOf_iff_prefix, List.isSuffixOf_iff_suffix]
  exact ⟨⟨x ++ [')'], rfl⟩, ⟨'p' :: '(' :: x, rfl⟩⟩

/-- Whether a character can stand in a statistic or in a number. -/
def isOperandChar (c : Char) : Bool :=
  FloatLit.isLiteralChar c || "avgminmaxmedcountratevaluep()".toList.contains c

theorem IsStat.isOperandChar {s : Str} {stat : ThresholdStat F} (h : IsStat s stat) :
    ∀ c ∈ s, isOperandChar c = true := by
  cases h with
  | @percentile x p hx =>
      intro c hc
      have hcases : c = 'p' ∨ c = '(' ∨ c = ')' ∨ c ∈ x := by
        simp only [List.mem_cons, List.mem_append, List.not_mem_nil, or_false] at hc
        tauto
      rcases hcases with rfl | rfl | rfl | hmem
      · decide
      · decide
      · decide
      · rw [K6Rs.isOperandChar, hx.isLiteralChar c hmem, Bool.true_or]
  | _ => exact List.all_iff_forall_prop.mp (by decide)

theorem not_isWhitespace_of_isOperandChar {c : Char} (h : isOperandChar c = true) :
    Str.isWhitespace c = false := by
  rcases Bool.or_eq_true_iff.mp h with h | h
  · exact FloatLit.not_isWhitespace_of_isLiteralChar h
  · have hnone : ∀ d ∈ "avgminmaxmedcountratevaluep()".toList, Str.isWhitespace d = false :=
      List.all_iff_forall_prop.mp (by decide)
    exact hnone c (List.contains_iff_mem.mp h)

theorem IsStat.trim {s : Str} {stat : ThresholdStat F} (h : IsStat s stat) : Str.trim s = s := by
  apply Trim.trim_eq_self
  · exact fun c hc => not_isWhitespace_of_isOperandChar (h.isOperandChar c
      (List.mem_of_mem_head? hc))
  · exact fun c hc => not_isWhitespace_of_isOperandChar (h.isOperandChar c
      (List.mem_of_mem_getLast? hc))

theorem IsStat.parseStat {s : Str} {stat : ThresholdStat F} (h : IsStat s stat) :
    parseStat s = some stat := by
  rw [K6Rs.parseStat, h.trim]
  cases h with
  | @percentile x p hx =>
      have hne : ∀ w : Str, w.head? ≠ some 'p' → 'p' :: '(' :: (x ++ [')']) ≠ w := by
        rintro w hw rfl
        exact hw rfl
      rw [if_neg (hne "avg".toList (by decide)), if_neg (hne "min".toList (by decide)),
        if_neg (hne "max".toList (by decide)), if_neg (hne "med".toList (by decide)),
        if_neg (hne "count".toList (by decide)), if_neg (hne "rate".toList (by decide)),
        if_neg (hne "value".toList (by decide)),
        if_pos (parens_call x), slice_parens, parseFloat_eq_some_iff.mpr ⟨p, hx, rfl⟩]
      rfl
  | _ => rfl

theorem isStat_of_parseStat {s : Str} {stat : ThresholdStat F} (h : parseStat s = some stat) :
    IsStat (Str.trim s) stat := by
  simp only [parseStat] at h
  iterate 7
    split at h
    · rename_i hname
      obtain rfl := Option.some.inj h
      rw [hname]
      constructor
  split at h
  · rename_i hcall
    obtain ⟨x, hx⟩ := exists_parens hcall
    rw [hx, slice_parens, Option.map_eq_some_iff] at h
    obtain ⟨p, hp, rfl⟩ := h
    obtain ⟨l, hl, rfl⟩ := parseFloat_eq_some_iff.mp hp
    rw [hx]
    exact .percentile hl
  · cases h

/-- The slice between the parentheses lies within the text. -/
theorem parseStatBytes_eq (s : Str) :
    (parseStatBytes s : Option (Option (ThresholdStat F))) = some (parseStat s) := by
  simp only [parseStatBytes, parseStat]
  iterate 7
    split
    · rfl
  split
  · rename_i hcall
    obtain ⟨x, hx⟩ := exists_parens hcall
    rw [hx, slice_parens, byteSlice_parens]
    rfl
  · rfl

/-! ## The operator -/

def isOpChar (c : Char) : Prop := c = '=' ∨ c = '<' ∨ c = '>' ∨ c = '!'

instance (c : Char) : Decidable (isOpChar c) := inferInstanceAs (Decidable (_ ∨ _))

theorem not_isOpChar_of_isOperandChar {c : Char} (h : isOperandChar c = true) : ¬isOpChar c := by
  rintro (rfl | rfl | rfl | rfl) <;> revert h <;> decide

theorem not_isOpChar_of_isWhitespace {c : Char} (h : Str.isWhitespace c = true) : ¬isOpChar c := by
  rintro (rfl | rfl | rfl | rfl) <;> revert h <;> decide

theorem opPatterns_spec : ∀ p ∈ opPatterns, p.1 ≠ [] ∧ ∀ c ∈ p.1, isOpChar c := by
  have hall : ∀ p ∈ opPatterns, p.1 ≠ [] ∧ p.1.all fun c => isOpChar c := by decide
  exact fun p hp => ⟨(hall p hp).1, List.all_iff_forall_prop.mp (hall p hp).2⟩

/-- Operands without operator characters do not change what is found between them. -/
theorem parseOpWith_between {left mid right : Str} {patterns : List (Str × ThresholdOp)}
    (hpatterns : ∀ p ∈ patterns, p.1 ≠ [] ∧ ∀ c ∈ p.1, isOpChar c) (hleft : ∀ c ∈ left, ¬isOpChar c)
    (hright : ∀ c ∈ right, ¬isOpChar c) :
    parseOpWith (left ++ mid ++ right) patterns =
      (parseOpWith mid patterns).map fun (a, o, b) => (left ++ a, o, b ++ right) := by
  induction patterns with
  | nil => rfl
  | cons p patterns ih =>
      obtain ⟨pattern, o⟩ := p
      obtain ⟨hne, hpattern⟩ := hpatterns _ List.mem_cons_self
      have hrest := ih fun p hp => hpatterns p (List.mem_cons_of_mem _ hp)
      have hfind := @Str.findText_between isOpChar left mid right pattern hne hpattern hleft hright
      rw [parseOpWith, parseOpWith, hfind]
      cases hmid : Str.findText pattern mid with
      | none => exact hrest
      | some pos =>
          have hlen := congrArg List.length (Str.findText_eq_some hmid)
          simp only [List.length_append, List.length_take, List.length_drop] at hlen
          have hpattern0 : 0 < pattern.length := List.length_pos_of_ne_nil hne
          have hpos : pos + pattern.length ≤ mid.length := by omega
          have htake : (left ++ mid ++ right).take (pos + left.length) = left ++ mid.take pos := by
            rw [List.append_assoc, Nat.add_comm, List.take_length_add_append,
              List.take_append_of_le_length (by omega)]
          have hdrop : (left ++ mid ++ right).drop (pos + left.length + pattern.length) =
              mid.drop (pos + pattern.length) ++ right := by
            rw [List.append_assoc, Nat.add_right_comm, Nat.add_comm, List.drop_length_add_append,
              List.drop_append_of_le_length hpos]
          simp only [Option.map_some, htake, hdrop]

theorem parseOp_pattern : ∀ p ∈ opPatterns, parseOp p.1 = some ([], p.2, []) := by decide

theorem parseOp_between {left op right : Str} {o : ThresholdOp} (hop : (op, o) ∈ opPatterns)
    (hleft : ∀ c ∈ left, ¬isOpChar c) (hright : ∀ c ∈ right, ¬isOpChar c) :
    parseOp (left ++ op ++ right) = some (left, o, right) := by
  have hown := parseOp_pattern _ hop
  rw [parseOp] at hown ⊢
  rw [parseOpWith_between opPatterns_spec hleft hright, hown]
  simp

/-- An expression is its two operands around one of the operator patterns. -/
theorem parseOpWith_eq_some {expr a b : Str} {o : ThresholdOp} {patterns : List (Str × ThresholdOp)}
    (h : parseOpWith expr patterns = some (a, o, b)) : ∃ op,
    (op, o) ∈ patterns ∧ expr = a ++ op ++ b := by
  induction patterns with
  | nil => cases h
  | cons p patterns ih =>
      obtain ⟨pattern, o'⟩ := p
      rw [parseOpWith] at h
      cases hfind : Str.findText pattern expr with
      | none =>
          rw [hfind] at h
          obtain ⟨op, hop, heq⟩ := ih h
          exact ⟨op, List.mem_cons_of_mem _ hop, heq⟩
      | some pos =>
          simp only [hfind, Option.some.injEq, Prod.mk.injEq] at h
          obtain ⟨rfl, rfl, rfl⟩ := h
          exact ⟨pattern, List.mem_cons_self, Str.findText_eq_some hfind⟩

/-- The slices around a pattern lie within the text. -/
theorem parseOpBytesWith_eq (expr : Str) (patterns : List (Str × ThresholdOp)) :
    parseOpBytesWith expr patterns = some (parseOpWith expr patterns) := by
  induction patterns with
  | nil => rfl
  | cons p patterns ih =>
      obtain ⟨pattern, o⟩ := p
      rw [parseOpBytesWith, parseOpWith, Str.findTextByte]
      cases hfind : Str.findText pattern expr with
      | none => exact ih
      | some pos =>
          have hexpr := Str.findText_eq_some hfind
          simp only [Option.map_some]
          generalize expr.take pos = left at hexpr ⊢
          generalize expr.drop (pos + pattern.length) = right at hexpr ⊢
          have hleft := Str.byteSlice_append [] left (pattern ++ right)
          have hright := Str.byteSlice_append (left ++ pattern) right []
          rw [List.nil_append, ← List.append_assoc] at hleft
          rw [List.append_nil, Str.utf8Len_append left pattern] at hright
          rw [Str.utf8Len, ← hexpr] at hleft
          rw [← hexpr] at hright
          simp only [Option.bind_eq_bind, hleft, hright, Option.bind_some]
          rfl

/-! ## The condition -/

/-- No expression makes the parser panic. -/
theorem parseConditionBytes_eq (expr : Str) :
    (parseConditionBytes expr : Option (Option (ThresholdCondition F))) =
    some (parseCondition expr) := by
  rw [parseConditionBytes, parseCondition, parseOpBytes, parseOpBytesWith_eq, ← parseOp]
  simp only [Option.bind_eq_bind, Option.bind_some]
  cases parseOp (Str.trim expr) with
  | none => rfl
  | some parts =>
      obtain ⟨statStr, op, valueStr⟩ := parts
      simp only [parseStatBytes_eq, Option.bind_some]
      cases (parseStat (Str.trim statStr) : Option (ThresholdStat F)) <;> rfl

theorem IsStat.ne_nil {s : Str} {stat : ThresholdStat F} (h : IsStat s stat) : s ≠ [] := by
  cases h <;> exact List.cons_ne_nil _ _

theorem isOperandChar_of_isLiteral {s : Str} {l : FloatLit} (h : FloatLit.IsLiteral s l) :
    ∀ c ∈ s, isOperandChar c = true := by
  intro c hc
  rw [isOperandChar, h.isLiteralChar c hc, Bool.true_or]

/-- A text of operand characters alone is trimmed, also behind and before others that end so. -/
theorem trim_between {s t u : Str} (hs : s ≠ []) (hs' : ∀ c ∈ s, isOperandChar c = true)
    (hu : u ≠ [])
    (hu' : ∀ c ∈ u, isOperandChar c = true) : Str.trim (s ++ t ++ u) = s ++ t ++ u := by
  apply Trim.trim_eq_self
  · intro c hc
    rw [List.append_assoc, List.head?_append_of_ne_nil _ hs] at hc
    exact not_isWhitespace_of_isOperandChar (hs' c (List.mem_of_mem_head? hc))
  · intro c hc
    rw [List.getLast?_append_of_ne_nil _ hu] at hc
    exact not_isWhitespace_of_isOperandChar (hu' c (List.mem_of_mem_getLast? hc))

theorem trim_spaces {s ws ws' : Str} (h : IsSpace ws) (h' : IsSpace ws') :
    Str.trim (ws ++ s ++ ws') = Str.trim s := by
  rw [Str.trim_append_of_whitespace _ _ h', Str.trim_whitespace_append _ _ h]

theorem not_isOpChar_of_mem_append {s ws : Str} (hs : ∀ c ∈ s, isOperandChar c = true)
    (hws : IsSpace ws) :
    ∀ c, c ∈ s ∨ c ∈ ws → ¬isOpChar c := by
  rintro c (hc | hc)
  · exact not_isOpChar_of_isOperandChar (hs c hc)
  · exact not_isOpChar_of_isWhitespace (hws c hc)

theorem IsCondition.parseCondition {expr : Str} {c : ThresholdCondition F}
    (h : IsCondition expr c) :
    parseCondition expr = some c := by
  cases h with
  | @mk ws₀ stat ws₁ op ws₂ number ws₃ s o l h₀ hstat h₁ hop h₂ hnumber h₃ =>
      have hnumber' := isOperandChar_of_isLiteral hnumber
      have htrim : Str.trim (ws₀ ++ stat ++ ws₁ ++ op ++ ws₂ ++ number ++ ws₃) =
          stat ++ ws₁ ++ op ++ (ws₂ ++ number) := by
        have hcore := @trim_between stat (ws₁ ++ op ++ ws₂) number hstat.ne_nil hstat.isOperandChar
          hnumber.ne_nil hnumber'
        have hspaces := @trim_spaces (stat ++ (ws₁ ++ op ++ ws₂) ++ number) ws₀ ws₃ h₀ h₃
        rw [hcore] at hspaces
        simpa only [List.append_assoc] using hspaces
      have hparse : parseOp (stat ++ ws₁ ++ op ++ (ws₂ ++ number)) =
          some (stat ++ ws₁, o, ws₂ ++ number) := by
        apply parseOp_between hop
        · exact fun c hc => not_isOpChar_of_mem_append hstat.isOperandChar h₁ c (List.mem_append.mp
            hc)
        · exact fun c hc => not_isOpChar_of_mem_append hnumber' h₂ c (List.mem_append.mp hc).symm
      have hleft : Str.trim (stat ++ ws₁) = stat := by
        rw [Str.trim_append_of_whitespace _ _ h₁, hstat.trim]
      have hright : Str.trim (ws₂ ++ number) = number := by
        rw [Str.trim_whitespace_append _ _ h₂]
        apply Trim.trim_eq_self
        · exact fun c hc => not_isWhitespace_of_isOperandChar (hnumber' c
            (List.mem_of_mem_head? hc))
        · exact fun c hc => not_isWhitespace_of_isOperandChar (hnumber' c
            (List.mem_of_mem_getLast? hc))
      rw [K6Rs.parseCondition, htrim, hparse]
      simp only [hleft, hright, hstat.parseStat, parseFloat_eq_some_iff.mpr ⟨l, hnumber, rfl⟩,
        Option.map_some]

theorem isCondition_of_parseCondition {expr : Str} {c : ThresholdCondition F}
    (h : parseCondition expr = some c) :
    IsCondition expr c := by
  rw [parseCondition] at h
  cases hop : parseOp (Str.trim expr) with
  | none => simp [hop] at h
  | some parts =>
      obtain ⟨statStr, o, valueStr⟩ := parts
      simp only [hop] at h
      cases hstat : (parseStat (Str.trim statStr) : Option (ThresholdStat F)) with
      | none => simp [hstat] at h
      | some stat =>
          simp only [hstat, Option.map_eq_some_iff] at h
          obtain ⟨value, hvalue, rfl⟩ := h
          obtain ⟨l, hnumber, rfl⟩ := parseFloat_eq_some_iff.mp hvalue
          obtain ⟨op, hpattern, hexpr⟩ := parseOpWith_eq_some hop
          have hstat' := isStat_of_parseStat hstat
          rw [Str.trim_trim] at hstat'
          obtain ⟨front, back, htext, hfront, hback⟩ := Str.exists_append_trim expr
          obtain ⟨front₁, back₁, hleft, hfront₁, hback₁⟩ := Str.exists_append_trim statStr
          obtain ⟨front₂, back₂, hright, hfront₂, hback₂⟩ := Str.exists_append_trim valueStr
          have hws₀ : IsSpace (front ++ front₁) :=
            fun c hc => (List.mem_append.mp hc).elim (hfront c) (hfront₁ c)
          have hws₃ : IsSpace (back₂ ++ back) :=
            fun c hc => (List.mem_append.mp hc).elim (hback₂ c) (hback c)
          have hcondition := IsCondition.mk hws₀ hstat' hback₁ hpattern hfront₂ hnumber hws₃
          have hwhole : expr = front ++ front₁ ++ Str.trim statStr ++ back₁ ++ op ++ front₂ ++
              Str.trim valueStr ++
              (back₂ ++ back) := by
            calc expr = front ++ (statStr ++ op ++ valueStr) ++ back := by rw [← hexpr, ← htext]
              _ = front ++ ((front₁ ++ Str.trim statStr ++ back₁) ++ op ++
                    (front₂ ++ Str.trim valueStr ++ back₂)) ++ back := by rw [← hleft, ← hright]
              _ = _ := by simp only [List.append_assoc]
          rwa [← hwhole] at hcondition

/-- The characters of a condition. -/
theorem IsCondition.mem {expr : Str} {c : ThresholdCondition F} (h : IsCondition expr c) {ch : Char}
    (hmem : ch ∈ expr) :
    Str.isWhitespace ch = true ∨ isOperandChar ch = true ∨ isOpChar ch := by
  cases h with
  | @mk ws₀ stat ws₁ op ws₂ number ws₃ s o l h₀ hstat h₁ hop h₂ hnumber h₃ =>
      simp only [List.mem_append, or_assoc] at hmem
      rcases hmem with hmem | hmem | hmem | hmem | hmem | hmem | hmem
      · exact .inl (h₀ ch hmem)
      · exact .inr (.inl (hstat.isOperandChar ch hmem))
      · exact .inl (h₁ ch hmem)
      · exact .inr (.inr ((opPatterns_spec _ hop).2 ch hmem))
      · exact .inl (h₂ ch hmem)
      · exact .inr (.inl (isOperandChar_of_isLiteral hnumber ch hmem))
      · exact .inl (h₃ ch hmem)

/-- The parser returns on every text, and it accepts the texts of the grammar alone, each with the
statistic, the operator and the value that it writes. -/
theorem parseConditionBytes_iff (expr : Str) : ∃ result : Option (ThresholdCondition F),
    parseConditionBytes expr = some result ∧ ∀ c, result = some c ↔ IsCondition expr c :=
  ⟨parseCondition expr, parseConditionBytes_eq expr,
    fun _ => ⟨isCondition_of_parseCondition, IsCondition.parseCondition⟩⟩

end K6Rs
