import K6Rs.Library.JsonParse

/-! What the parser of JSON texts accepts: exactly the texts of the grammar, each as the value it
is a text of. -/

namespace JsonTree

/-! ## What is parsed is a text of the value -/

theorem isBlankChar_iff {c : Char} : isBlankChar c = true ↔
    c = ' ' ∨ c = '\t' ∨ c = '\n' ∨ c = '\r' := by
  simp [isBlankChar, or_assoc]

theorem exists_blanks (s : Str) : ∃ w, IsBlank w ∧ s = w ++ skipBlanks s :=
  ⟨s.takeWhile isBlankChar, fun _ hc => isBlankChar_iff.mp (List.mem_takeWhile_imp hc),
    List.takeWhile_append_dropWhile.symm⟩

theorem isBlank_append {v w : Str} (hv : IsBlank v) (hw : IsBlank w) : IsBlank (v ++ w) :=
  List.forall_mem_append.mpr ⟨hv, hw⟩

/-- Blanks and a character after them. -/
theorem exists_blanks_cons {s : Str} {c : Char} (h : (skipBlanks s).head? = some c) :
    ∃ w, IsBlank w ∧ s = w ++ c :: (skipBlanks s).tail := by
  obtain ⟨w, hw, hs⟩ := exists_blanks s
  obtain ⟨tail, htail⟩ := List.head?_eq_some_iff.mp h
  exact ⟨w, hw, by rw [htail] at hs ⊢; exact hs⟩

theorem parseItems_sound {α : Type} {item : Str → Option (α × Str)} {close : Char}
    {P : Str → α → Prop}
    (hitem : ∀ s a rest, item s = some (a, rest) → ∃ text, s = text ++ rest ∧ P text a)
    (hblank : ∀ text a w, P text a → IsBlank w → P (text ++ w) a) {fuel : ℕ} {s rest : Str}
    {as : List α} (h : parseItems item close fuel s = some (as, rest)) :
    ∃ parts : List (Str × α), parts ≠ [] ∧ parts.map Prod.snd = as ∧
      (∀ part ∈ parts, P part.1 part.2) ∧
      s = [','].intercalate (parts.map Prod.fst) ++ close :: rest := by
  induction fuel generalizing s as with
  | zero => cases h
  | succ fuel ih =>
      rw [parseItems] at h
      obtain ⟨⟨a, s'⟩, ha, hnext⟩ := Option.bind_eq_some_iff.mp h
      obtain ⟨text, rfl, htext⟩ := hitem _ _ _ ha
      simp only at hnext
      split at hnext
      · rename_i hcomma
        obtain ⟨w, hw, hs'⟩ := exists_blanks_cons hcomma
        obtain ⟨⟨as', s''⟩, has, hresult⟩ := Option.bind_eq_some_iff.mp hnext
        cases hresult
        obtain ⟨parts, hne, hmap, hparts, htail⟩ := ih has
        obtain ⟨part, parts, rfl⟩ := List.exists_cons_of_ne_nil hne
        refine ⟨(text ++ w, a) :: part :: parts, by simp, by rw [List.map_cons, hmap], ?_, ?_⟩
        · rw [List.forall_mem_cons]
          exact ⟨hblank _ _ _ htext hw, hparts⟩
        · rw [hs', htail]
          simp [List.intercalate_cons_cons]
      · split at hnext
        · rename_i hclose
          obtain ⟨w, hw, hs'⟩ := exists_blanks_cons hclose
          cases hnext
          refine ⟨[(text ++ w, a)], by simp, rfl, by simpa using hblank _ _ _ htext hw, ?_⟩
          simpa using hs'
        · cases hnext

/-- Where every element comes from one of another kind, so does the list. -/
theorem exists_map_eq {α β γ : Type} {f : γ → α} {g : γ → β} {R : γ → Prop} {l : List (α × β)}
    (h : ∀ p ∈ l, ∃ c, f c = p.1 ∧ g c = p.2 ∧ R c) :
    ∃ cs : List γ, cs.map f = l.map Prod.fst ∧ cs.map g = l.map Prod.snd ∧ ∀ c ∈ cs, R c := by
  induction l with
  | nil => exact ⟨[], rfl, rfl, List.forall_mem_nil _⟩
  | cons p l ih =>
      rw [List.forall_mem_cons] at h
      obtain ⟨⟨c, hf, hg, hc⟩, hl⟩ := h
      obtain ⟨cs, hfs, hgs, hcs⟩ := ih hl
      exact ⟨c :: cs, by rw [List.map_cons, hf, hfs, List.map_cons],
        by rw [List.map_cons, hg, hgs, List.map_cons], List.forall_mem_cons.mpr ⟨hc, hcs⟩⟩

/-- A text of a value with blanks around it. -/
def IsItem (text : Str) (v : JsonTree) : Prop :=
  ∃ part : ItemPart, part.all = text ∧ part.value = v ∧ part.WellFormed ∧
    Reads part.text part.value

def IsMember (text : Str) (member : Str × JsonTree) : Prop :=
  ∃ part : MemberPart, part.all = text ∧ (part.key, part.item.value) = member ∧
    part.WellFormed ∧ Reads part.item.text part.item.value

theorem isItem_append {text w : Str} {v : JsonTree} (h : IsItem text v) (hw : IsBlank w) :
    IsItem (text ++ w) v := by
  obtain ⟨part, rfl, rfl, hpart, hreads⟩ := h
  refine ⟨{ part with after := part.after ++ w }, ?_, rfl,
    ⟨hpart.before, isBlank_append hpart.after hw⟩, hreads⟩
  simp [ItemPart.all]

theorem isMember_append {text w : Str} {member : Str × JsonTree} (h : IsMember text member)
    (hw : IsBlank w) : IsMember (text ++ w) member := by
  obtain ⟨part, rfl, rfl, hpart, hreads⟩ := h
  refine ⟨{ part with item := { part.item with after := part.item.after ++ w } }, ?_, rfl,
    ⟨hpart.before, hpart.afterKey, ⟨hpart.item.before, isBlank_append hpart.item.after hw⟩,
      hpart.key⟩, hreads⟩
  simp [MemberPart.all, ItemPart.all]

/-- What a parser of values takes from the front of a text. -/
def ParsesItems (value : Str → Option (JsonTree × Str)) : Prop :=
  ∀ s v rest, value s = some (v, rest) → ∃ text, s = text ++ rest ∧ IsItem text v

theorem parseMember_sound {value : Str → Option (JsonTree × Str)} (hvalue : ParsesItems value)
    {s rest : Str} {member : Str × JsonTree} (h : parseMember value s = some (member, rest)) :
    ∃ text, s = text ++ rest ∧ IsMember text member := by
  simp only [parseMember] at h
  split at h
  · rename_i hquote
    obtain ⟨before, hbefore, hs⟩ := exists_blanks_cons hquote
    obtain ⟨⟨key, s'⟩, hkey, hnext⟩ := Option.bind_eq_some_iff.mp h
    obtain ⟨body, hbody, hread⟩ := parseBody_sound hkey
    simp only at hnext
    split at hnext
    · rename_i hcolon
      obtain ⟨afterKey, hafterKey, hs'⟩ := exists_blanks_cons hcolon
      obtain ⟨⟨v, s''⟩, hv, hresult⟩ := Option.bind_eq_some_iff.mp hnext
      cases hresult
      obtain ⟨text, htext, part, rfl, rfl, hpart, hreads⟩ := hvalue _ _ _ hv
      refine ⟨_, ?_, ⟨before, body, afterKey, part, key⟩, rfl, rfl,
        ⟨hbefore, hafterKey, hpart, hread⟩, hreads⟩
      rw [hs, hbody, hs', htext]
      simp [MemberPart.all]
    · cases hnext
  · cases h

theorem parseItems_value_sound {value : Str → Option (JsonTree × Str)} (hvalue : ParsesItems value)
    {fuel : ℕ} {s rest : Str} {items : List JsonTree}
    (h : parseItems value ']' fuel s = some (items, rest)) :
    ∃ body, '[' :: s = body ++ rest ∧ Reads body (.array items) := by
  obtain ⟨parts, hne, rfl, hparts, rfl⟩ :=
    parseItems_sound hvalue (fun _ _ _ h hw => isItem_append h hw) h
  obtain ⟨items, htexts, hvalues, hitems⟩ := exists_map_eq (γ := ItemPart)
    (f := ItemPart.all) (g := ItemPart.value)
    (R := fun part => part.WellFormed ∧ Reads part.text part.value)
    (fun part hpart => hparts part hpart)
  have hitemsNe : items ≠ [] := by
    rintro rfl
    exact hne (List.map_eq_nil_iff.mp htexts.symm)
  refine ⟨arrayText (items.map ItemPart.all), by rw [arrayText, htexts]; simp, ?_⟩
  rw [← hvalues]
  exact .array hitemsNe (fun part hpart => (hitems part hpart).1) fun part hpart =>
    (hitems part hpart).2

theorem parseItems_member_sound {value : Str → Option (JsonTree × Str)}
    (hvalue : ParsesItems value) {fuel : ℕ} {s rest : Str} {members : List (Str × JsonTree)}
    (h : parseItems (parseMember value) '}' fuel s = some (members, rest)) :
    ∃ body, '{' :: s = body ++ rest ∧ Reads body (.object members) := by
  obtain ⟨parts, hne, rfl, hparts, rfl⟩ :=
    parseItems_sound (fun _ _ _ h => parseMember_sound hvalue h)
      (fun _ _ _ h hw => isMember_append h hw) h
  obtain ⟨items, htexts, hvalues, hitems⟩ := exists_map_eq (γ := MemberPart)
    (f := MemberPart.all) (g := fun part => (part.key, part.item.value))
    (R := fun part => part.WellFormed ∧ Reads part.item.text part.item.value)
    (fun part hpart => hparts part hpart)
  have hitemsNe : items ≠ [] := by
    rintro rfl
    exact hne (List.map_eq_nil_iff.mp htexts.symm)
  refine ⟨objectText (items.map MemberPart.all), by rw [objectText, htexts]; simp, ?_⟩
  rw [← hvalues]
  exact .object hitemsNe (fun part hpart => (hitems part hpart).1) fun part hpart =>
    (hitems part hpart).2

/-- A word at the front of a text. -/
theorem eq_append_drop {word s : Str} (h : word.isPrefixOf s = true) :
    s = word ++ s.drop word.length := by
  obtain ⟨rest, rfl⟩ := List.isPrefixOf_iff_prefix.mp h
  rw [List.drop_left]

theorem parseNumber_sound {s rest : Str} {v : JsonTree} (h : parseNumber s = some (v, rest)) :
    ∃ body, s = body ++ rest ∧ Reads body v := by
  simp only [parseNumber] at h
  split at h
  · rename_i hnumber
    cases h
    exact ⟨_, List.takeWhile_append_dropWhile.symm, .number (isNumber_iff.mp hnumber)⟩
  · cases h

theorem parseValue_sound (fuel : ℕ) : ParsesItems (parseValue fuel) := by
  induction fuel with
  | zero => exact fun _ _ _ h => by cases h
  | succ fuel ih =>
      intro s v rest h
      obtain ⟨before, hbefore, hs⟩ := exists_blanks s
      suffices hbody : ∃ body, skipBlanks s = body ++ rest ∧ Reads body v by
        obtain ⟨body, hsplit, hreads⟩ := hbody
        rw [hsplit] at hs
        exact ⟨before ++ body, by rw [List.append_assoc]; exact hs, ⟨before, body, [], v⟩,
          by simp [ItemPart.all], rfl, ⟨hbefore, isBlank_nil⟩, hreads⟩
      simp only [parseValue] at h
      generalize skipBlanks s = t at h ⊢
      split at h
      · rename_i hquote
        obtain ⟨t, rfl⟩ := List.head?_eq_some_iff.mp hquote
        obtain ⟨⟨body, s'⟩, hbody, hresult⟩ := Option.map_eq_some_iff.mp h
        cases hresult
        obtain ⟨text, htext, hread⟩ := parseBody_sound hbody
        exact ⟨'"' :: (text ++ ['"']), by simpa using htext, .string hread⟩
      split at h
      · rename_i hbracket
        obtain ⟨t, rfl⟩ := List.head?_eq_some_iff.mp hbracket
        split at h
        · rename_i hclose
          obtain ⟨w, hw, ht⟩ := exists_blanks_cons hclose
          cases h
          exact ⟨arrayText [w], by simpa [arrayText] using ht, .emptyArray hw⟩
        · obtain ⟨⟨items, s'⟩, hitems, hresult⟩ := Option.map_eq_some_iff.mp h
          cases hresult
          exact parseItems_value_sound ih hitems
      split at h
      · rename_i hbrace
        obtain ⟨t, rfl⟩ := List.head?_eq_some_iff.mp hbrace
        split at h
        · rename_i hclose
          obtain ⟨w, hw, ht⟩ := exists_blanks_cons hclose
          cases h
          exact ⟨objectText [w], by simpa [objectText] using ht, .emptyObject hw⟩
        · obtain ⟨⟨members, s'⟩, hmembers, hresult⟩ := Option.map_eq_some_iff.mp h
          cases hresult
          exact parseItems_member_sound ih hmembers
      split at h
      · rename_i hword
        cases h
        exact ⟨_, eq_append_drop hword, .bool true⟩
      split at h
      · rename_i hword
        cases h
        exact ⟨_, eq_append_drop hword, .bool false⟩
      split at h
      · rename_i hword
        cases h
        exact ⟨_, eq_append_drop hword, .null⟩
      · exact parseNumber_sound h

/-! ## Every text of a value is parsed -/

theorem skipBlanks_append {w s : Str} (hw : IsBlank w) (hs : ∀ c ∈ s.head?, isBlankChar c = false) :
    skipBlanks (w ++ s) = s := by
  rw [skipBlanks, List.dropWhile_append_of_pos fun c hc => isBlankChar_iff.mpr (hw c hc)]
  cases s with
  | nil => rfl
  | cons c s =>
      have hc : isBlankChar c = false := hs c rfl
      simp [hc]

/-- What follows a value cannot belong to a number. -/
def Follows (rest : Str) : Prop := ∀ c ∈ rest.head?, isNumberChar c = false

theorem follows_append {w rest : Str} (hw : IsBlank w) (hrest : Follows rest) :
    Follows (w ++ rest) := by
  cases w with
  | nil => exact hrest
  | cons c w =>
      rintro _ ⟨⟩
      rcases hw c List.mem_cons_self with rfl | rfl | rfl | rfl <;> decide

theorem isNumberChar_of_isDigit {c : Char} (h : c.isDigit = true) : isNumberChar c = true := by
  simp [isNumberChar, h]

theorem IsNumber.isNumberChar {text : Str} (h : IsNumber text) :
    ∀ c ∈ text, isNumberChar c = true := by
  obtain ⟨sign, int, frac, exp, rfl, hsign, hint, -, hfrac, hexp⟩ := h.parts
  simp only [List.forall_mem_append]
  refine ⟨⟨⟨?_, fun c hc => isNumberChar_of_isDigit (hint.2 c hc)⟩, ?_⟩, ?_⟩
  · rcases hsign with rfl | rfl <;> simp [JsonTree.isNumberChar]
  · rcases hfrac with rfl | ⟨ds, rfl, hds⟩
    · simp
    · rw [List.forall_mem_cons]
      exact ⟨by decide, fun c hc => isNumberChar_of_isDigit (hds.2 c hc)⟩
  · rcases hexp with rfl | ⟨e, sign, ds, rfl, he, hsign, hds⟩
    · simp
    · simp only [List.forall_mem_cons, List.forall_mem_append]
      refine ⟨?_, ?_, fun c hc => isNumberChar_of_isDigit (hds.2 c hc)⟩
      · rcases he with rfl | rfl <;> decide
      · rcases hsign with rfl | rfl | rfl <;> simp [JsonTree.isNumberChar]

theorem parseNumber_complete {text : Str} (h : IsNumber text) {rest : Str} (hrest : Follows rest) :
    parseNumber (text ++ rest) = some (.number text, rest) := by
  have hall := h.isNumberChar
  have htake : (text ++ rest).takeWhile isNumberChar = text ∧
      (text ++ rest).dropWhile isNumberChar = rest := by
    rw [List.takeWhile_append_of_pos hall, List.dropWhile_append_of_pos hall]
    cases rest with
    | nil => simp
    | cons c rest =>
        have hc : isNumberChar c = false := hrest c rfl
        simp [hc]
  rw [parseNumber, htake.1, htake.2, if_pos (isNumber_iff.mpr h)]

theorem parseItems_complete {α ι : Type} {item : Str → Option (α × Str)} {close : Char}
    (hclose : close = ']' ∨ close = '}') {text after : ι → Str} {value : ι → α} {parts : List ι}
    (hne : parts ≠ [])
    (hitem : ∀ part ∈ parts, ∀ rest, Follows rest →
      item (text part ++ rest) = some (value part, rest))
    (hafter : ∀ part ∈ parts, IsBlank (after part)) {fuel : ℕ} (hfuel : parts.length ≤ fuel)
    (rest : Str) :
    parseItems item close fuel
        ([','].intercalate (parts.map fun part => text part ++ after part) ++ close :: rest) =
      some (parts.map value, rest) := by
  have hblank : isBlankChar close = false ∧ close ≠ ',' ∧ isNumberChar close = false := by
    rcases hclose with rfl | rfl <;> decide
  induction parts generalizing fuel with
  | nil => contradiction
  | cons part parts ih =>
      obtain ⟨fuel, rfl⟩ := Nat.exists_eq_succ_of_ne_zero (Nat.ne_zero_of_lt hfuel)
      rw [List.forall_mem_cons] at hitem hafter
      cases parts with
      | nil =>
          have hend : skipBlanks (after part ++ close :: rest) = close :: rest :=
            skipBlanks_append hafter.1 fun c hc => by cases hc; exact hblank.1
          have hfirst := hitem.1 (after part ++ close :: rest)
            (follows_append hafter.1 fun c hc => by cases hc; exact hblank.2.2)
          simp [parseItems, hfirst, hend, hblank.2.1]
      | cons next parts =>
          let tail := [','].intercalate ((next :: parts).map fun part => text part ++ after part) ++
            close :: rest
          have hend : skipBlanks (after part ++ ',' :: tail) = ',' :: tail :=
            skipBlanks_append hafter.1 fun c hc => by cases hc; decide
          have hfirst := hitem.1 (after part ++ ',' :: tail)
            (follows_append hafter.1 fun c hc => by cases hc; decide)
          have hrest := ih (by simp) hitem.2 hafter.2 (by simpa using hfuel)
          have hsplit : [','].intercalate ((part :: next :: parts).map fun part =>
              text part ++ after part) ++ close :: rest =
                text part ++ (after part ++ ',' :: tail) := by
            simp [tail, List.intercalate_cons_cons]
          rw [hsplit, parseItems, hfirst]
          simp only [Option.bind_eq_bind, Option.bind_some, hend, List.head?_cons, if_true,
            List.tail_cons]
          rw [hrest]
          rfl

theorem IsNumber.head {text : Str} (h : IsNumber text) :
    ∃ c rest, text = c :: rest ∧ (c = '-' ∨ c.isDigit = true) := by
  obtain ⟨sign, int, frac, exp, rfl, hsign, hint, -⟩ := h.parts
  rcases hsign with rfl | rfl
  · obtain ⟨c, rest, rfl, hc⟩ := hint.head
    exact ⟨c, _, rfl, .inr hc⟩
  · exact ⟨'-', _, rfl, .inl rfl⟩

/-- A value begins with a character that is neither blank nor the end of an array. -/
theorem Reads.head {text : Str} {v : JsonTree} (h : Reads text v) :
    ∃ c rest, text = c :: rest ∧ isBlankChar c = false ∧ c ≠ ']' := by
  cases h with
  | null => exact ⟨'n', _, rfl, by decide, by decide⟩
  | bool b =>
      cases b
      · exact ⟨'f', _, rfl, by decide, by decide⟩
      · exact ⟨'t', _, rfl, by decide, by decide⟩
  | number h =>
      obtain ⟨c, rest, rfl, rfl | hc⟩ := h.head
      · exact ⟨'-', rest, rfl, by decide, by decide⟩
      · refine ⟨c, rest, rfl, ?_, ?_⟩
        · rw [Bool.eq_false_iff, ne_eq, isBlankChar_iff]
          rintro (rfl | rfl | rfl | rfl) <;> exact absurd hc (by decide)
        · rintro rfl
          exact absurd hc (by decide)
  | string h => exact ⟨'"', _, rfl, by decide, by decide⟩
  | emptyArray h => exact ⟨'[', _, rfl, by decide, by decide⟩
  | array hne hblank h => exact ⟨'[', _, rfl, by decide, by decide⟩
  | emptyObject h => exact ⟨'{', _, rfl, by decide, by decide⟩
  | object hne hblank h => exact ⟨'{', _, rfl, by decide, by decide⟩

theorem parseMember_complete {value : Str → Option (JsonTree × Str)} {part : MemberPart}
    (hpart : part.WellFormed) {rest : Str}
    (hvalue : value (part.item.before ++ part.item.text ++ rest) = some (part.item.value, rest)) :
    parseMember value (part.before ++ '"' :: (part.keyBody ++ '"' :: (part.afterKey ++ ':' ::
      (part.item.before ++ part.item.text ++ rest)))) =
      some ((part.key, part.item.value), rest) := by
  have hopen : skipBlanks (part.before ++ '"' :: (part.keyBody ++ '"' :: (part.afterKey ++ ':' ::
      (part.item.before ++ part.item.text ++ rest)))) = _ :=
    skipBlanks_append hpart.before fun c hc => by cases hc; decide
  have hkey := parseString_complete hpart.key
    (part.afterKey ++ ':' :: (part.item.before ++ part.item.text ++ rest))
  have hcolon : skipBlanks (part.afterKey ++ ':' ::
      (part.item.before ++ part.item.text ++ rest)) = _ :=
    skipBlanks_append hpart.afterKey fun c hc => by cases hc; decide
  simp only [parseMember, hopen, List.head?_cons, if_true, List.tail_cons, hkey,
    Option.bind_eq_bind, Option.bind_some, hcolon, hvalue]
  rfl

theorem mem_length_le {α : Type} {f : α → Str} {l : List α} {a : α} (ha : a ∈ l) :
    (f a).length + 1 ≤ (l.map fun a => (f a).length + 1).sum :=
  List.single_le_sum (fun _ _ => Nat.zero_le _) _ (List.mem_map_of_mem ha)

theorem length_le_sum {α : Type} (f : α → Str) (l : List α) :
    l.length ≤ (l.map fun a => (f a).length + 1).sum := by
  induction l with
  | nil => exact le_rfl
  | cons a l ih =>
      rw [List.length_cons, List.map_cons, List.sum_cons]
      omega

/-- The texts of the items are shorter than the bracketed text. -/
theorem length_lt_of_bracketed {α : Type} {f : α → Str} {l : List α} {n : ℕ} (hne : l ≠ [])
    (hn : 2 + ((l.map fun a => (f a).length + 1).sum - 1) ≤ n + 1) :
    l.length ≤ n ∧ ∀ a ∈ l, (f a).length ≤ n := by
  have hlength := length_le_sum f l
  have hpos := List.length_pos_of_ne_nil hne
  refine ⟨by omega, fun a ha => ?_⟩
  have ha := mem_length_le (f := f) ha
  omega

theorem parseValue_append {w s : Str} (hw : IsBlank w)
    (hs : ∀ c ∈ s.head?, isBlankChar c = false) (fuel : ℕ) :
    parseValue fuel (w ++ s) = parseValue fuel s := by
  cases fuel with
  | zero => rfl
  | succ fuel =>
      have hself : skipBlanks s = s := skipBlanks_append isBlank_nil hs
      simp only [parseValue, skipBlanks_append hw hs, hself]

/-- White space before the text of a value is skipped. -/
theorem parseValue_blank {w text : Str} {v : JsonTree} (hw : IsBlank w) (h : Reads text v)
    (fuel : ℕ) (rest : Str) :
    parseValue fuel (w ++ text ++ rest) = parseValue fuel (text ++ rest) := by
  obtain ⟨c, t, rfl, hc, -⟩ := h.head
  rw [List.append_assoc]
  refine parseValue_append hw ?_ fuel
  rintro _ ⟨⟩
  exact hc

theorem parseValue_number {text : Str} (h : IsNumber text) {rest : Str} (hrest : Follows rest)
    (fuel : ℕ) : parseValue (fuel + 1) (text ++ rest) = some (.number text, rest) := by
  have hnumber := parseNumber_complete h hrest
  obtain ⟨c, t, rfl, -, -⟩ := (Reads.number h).head
  obtain ⟨d, u, heq, hd⟩ := h.head
  obtain ⟨rfl, rfl⟩ := List.cons.inj heq
  have hother (e : Char) (he : e ≠ '-' ∧ e.isDigit = false) : c ≠ e := by
    rintro rfl
    rcases hd with hd | hd
    · exact he.1 hd
    · rw [he.2] at hd
      cases hd
  have hself : skipBlanks (c :: t ++ rest) = c :: t ++ rest := by
    refine skipBlanks_append isBlank_nil ?_
    rintro _ ⟨⟩
    rw [Bool.eq_false_iff, ne_eq, isBlankChar_iff]
    rintro (h | h | h | h) <;> exact hother _ (by decide) h
  simp only [parseValue, hself, hnumber]
  have hquote := hother '"' (by decide)
  have hbracket := hother '[' (by decide)
  have hbrace := hother '{' (by decide)
  have ht := hother 't' (by decide)
  have hf := hother 'f' (by decide)
  have hn := hother 'n' (by decide)
  simp [List.isPrefixOf, hquote, hbracket, hbrace, ht.symm, hf.symm, hn.symm]

theorem parseValue_string {body s : Str} (h : StringBody body s) (rest : Str) (fuel : ℕ) :
    parseValue (fuel + 1) ('"' :: (body ++ ['"']) ++ rest) = some (.string s, rest) := by
  have hself : skipBlanks ('"' :: (body ++ ['"']) ++ rest) = '"' :: (body ++ '"' :: rest) := by
    simp [skipBlanks, isBlankChar]
  simp only [parseValue, hself, List.head?_cons, if_true, List.tail_cons,
    parseString_complete h rest]
  rfl

theorem skipBlanks_cons {c : Char} (hc : isBlankChar c = false) (s : Str) :
    skipBlanks (c :: s) = c :: s := skipBlanks_append isBlank_nil fun d hd => by cases hd; exact hc

theorem parseValue_emptyArray {w : Str} (h : IsBlank w) (rest : Str) (fuel : ℕ) :
    parseValue (fuel + 1) (arrayText [w] ++ rest) = some (.array [], rest) := by
  have hopen : arrayText [w] ++ rest = '[' :: (w ++ ']' :: rest) := by simp [arrayText]
  have hclose : skipBlanks (w ++ ']' :: rest) = ']' :: rest :=
    skipBlanks_append h fun c hc => by cases hc; decide
  have hself := skipBlanks_cons (c := '[') (by decide) (w ++ ']' :: rest)
  rw [hopen]
  simp [parseValue, hself, hclose]

theorem parseValue_emptyObject {w : Str} (h : IsBlank w) (rest : Str) (fuel : ℕ) :
    parseValue (fuel + 1) (objectText [w] ++ rest) = some (.object [], rest) := by
  have hopen : objectText [w] ++ rest = '{' :: (w ++ '}' :: rest) := by simp [objectText]
  have hclose : skipBlanks (w ++ '}' :: rest) = '}' :: rest :=
    skipBlanks_append h fun c hc => by cases hc; decide
  have hself := skipBlanks_cons (c := '{') (by decide) (w ++ '}' :: rest)
  rw [hopen]
  simp [parseValue, hself, hclose]

theorem intercalate_cons (text : Str) (texts : List Str) (rest : Str) :
    ∃ tail, [','].intercalate (text :: texts) ++ rest = text ++ tail := by
  cases texts with
  | nil => exact ⟨rest, by simp⟩
  | cons next texts => exact ⟨',' :: ([','].intercalate (next :: texts) ++ rest), by
      simp [List.intercalate_cons_cons]⟩

theorem parseValue_array {parts : List ItemPart} (hne : parts ≠ [])
    (hblank : ∀ part ∈ parts, part.WellFormed) (hreads : ∀ part ∈ parts, Reads part.text part.value)
    {fuel : ℕ} (hlength : parts.length ≤ fuel)
    (hitem : ∀ part ∈ parts, ∀ rest, Follows rest →
      parseValue fuel (part.text ++ rest) = some (part.value, rest)) (rest : Str) :
    parseValue (fuel + 1) (arrayText (parts.map ItemPart.all) ++ rest) =
      some (.array (parts.map ItemPart.value), rest) := by
  let body := [','].intercalate (parts.map ItemPart.all) ++ ']' :: rest
  have hopen : arrayText (parts.map ItemPart.all) ++ rest = '[' :: body := by
    simp [arrayText, body]
  have hself := skipBlanks_cons (c := '[') (by decide) body
  have hfirst : (skipBlanks body).head? ≠ some ']' := by
    obtain ⟨part, parts, rfl⟩ := List.exists_cons_of_ne_nil hne
    rw [List.forall_mem_cons] at hblank hreads
    obtain ⟨tail, htail⟩ := intercalate_cons part.all (parts.map ItemPart.all) (']' :: rest)
    obtain ⟨c, t, htext, hc, hbracket⟩ := hreads.1.head
    have hbody : body = part.before ++ c :: (t ++ part.after ++ tail) := by
      rw [show body = part.all ++ tail from htail, ItemPart.all, htext]
      simp
    rw [hbody, skipBlanks_append hblank.1.before fun d hd => by cases hd; exact hc]
    simpa using hbracket
  have hitem' : ∀ part ∈ parts, ∀ rest, Follows rest →
      parseValue fuel (part.before ++ part.text ++ rest) = some (part.value, rest) := by
    intro part hpart rest hrest
    rw [parseValue_blank (hblank part hpart).before (hreads part hpart)]
    exact hitem part hpart rest hrest
  have hafter : ∀ part ∈ parts, IsBlank part.after := fun part hpart => (hblank part hpart).after
  have hparse : parseItems (parseValue fuel) ']' fuel body =
      some (parts.map ItemPart.value, rest) :=
    parseItems_complete (.inl rfl) hne hitem' hafter hlength rest
  rw [hopen]
  simp [parseValue, hself, hfirst, hparse]

theorem parseValue_object {parts : List MemberPart} (hne : parts ≠ [])
    (hblank : ∀ part ∈ parts, part.WellFormed)
    (hreads : ∀ part ∈ parts, Reads part.item.text part.item.value)
    {fuel : ℕ} (hlength : parts.length ≤ fuel)
    (hitem : ∀ part ∈ parts, ∀ rest, Follows rest →
      parseValue fuel (part.item.text ++ rest) = some (part.item.value, rest)) (rest : Str) :
    parseValue (fuel + 1) (objectText (parts.map MemberPart.all) ++ rest) =
      some (.object (parts.map fun part => (part.key, part.item.value)), rest) := by
  let body := [','].intercalate (parts.map MemberPart.all) ++ '}' :: rest
  have hopen : objectText (parts.map MemberPart.all) ++ rest = '{' :: body := by
    simp [objectText, body]
  have hself := skipBlanks_cons (c := '{') (by decide) body
  have hfirst : (skipBlanks body).head? ≠ some '}' := by
    obtain ⟨part, parts, rfl⟩ := List.exists_cons_of_ne_nil hne
    rw [List.forall_mem_cons] at hblank
    obtain ⟨tail, htail⟩ := intercalate_cons part.all (parts.map MemberPart.all) ('}' :: rest)
    have hbody : body = part.before ++ '"' :: (part.keyBody ++
        '"' :: (part.afterKey ++ ':' :: part.item.all) ++ tail) := by
      rw [show body = part.all ++ tail from htail, MemberPart.all]
      simp
    rw [hbody, skipBlanks_append hblank.1.before fun d hd => by cases hd; decide]
    simp
  have hitem' : ∀ part ∈ parts, ∀ rest, Follows rest →
      parseMember (parseValue fuel) ((part.before ++ '"' :: (part.keyBody ++ '"' ::
        (part.afterKey ++ ':' :: (part.item.before ++ part.item.text)))) ++ rest) =
        some ((part.key, part.item.value), rest) := by
    intro part hpart rest hrest
    have hvalue : parseValue fuel (part.item.before ++ part.item.text ++ rest) =
        some (part.item.value, rest) := by
      rw [parseValue_blank (hblank part hpart).item.before (hreads part hpart)]
      exact hitem part hpart rest hrest
    have hmember := parseMember_complete (hblank part hpart) hvalue
    simpa using hmember
  have hafter : ∀ part ∈ parts, IsBlank part.item.after :=
    fun part hpart => (hblank part hpart).item.after
  have hparse : parseItems (parseMember (parseValue fuel)) '}' fuel body =
      some (parts.map fun part => (part.key, part.item.value), rest) := by
    have hitems := parseItems_complete (.inr rfl) hne hitem' hafter hlength rest
    have hall : parts.map MemberPart.all = parts.map fun part => (part.before ++ '"' ::
        (part.keyBody ++ '"' :: (part.afterKey ++ ':' :: (part.item.before ++ part.item.text)))) ++
          part.item.after := List.map_congr_left fun part _ => by
      simp [MemberPart.all, ItemPart.all]
    rw [← hall] at hitems
    exact hitems
  rw [hopen]
  simp [parseValue, hself, hfirst, hparse]

/-- The parser takes the text of a value, and leaves what follows it. -/
theorem parseValue_complete {text : Str} {v : JsonTree} (h : Reads text v) {rest : Str}
    (hrest : Follows rest) {fuel : ℕ} (hfuel : text.length ≤ fuel) :
    parseValue fuel (text ++ rest) = some (v, rest) := by
  induction h generalizing fuel rest with
  | null =>
      obtain ⟨fuel, rfl⟩ := Nat.exists_eq_add_of_le' (Nat.le_trans (by decide : 1 ≤ 4) hfuel)
      rfl
  | bool b =>
      obtain ⟨fuel, rfl⟩ : ∃ n, fuel = n + 1 := Nat.exists_eq_add_of_le'
        (Nat.le_trans (by cases b <;> decide) hfuel)
      cases b <;> rfl
  | number h =>
      obtain ⟨c, t, rfl, -⟩ := (Reads.number h).head
      obtain ⟨fuel, rfl⟩ := Nat.exists_eq_succ_of_ne_zero (Nat.ne_zero_of_lt hfuel)
      exact parseValue_number h hrest fuel
  | string h =>
      obtain ⟨fuel, rfl⟩ := Nat.exists_eq_succ_of_ne_zero (Nat.ne_zero_of_lt hfuel)
      exact parseValue_string h rest fuel
  | emptyArray h =>
      obtain ⟨fuel, rfl⟩ := Nat.exists_eq_succ_of_ne_zero (Nat.ne_zero_of_lt hfuel)
      exact parseValue_emptyArray h rest fuel
  | emptyObject h =>
      obtain ⟨fuel, rfl⟩ := Nat.exists_eq_succ_of_ne_zero (Nat.ne_zero_of_lt hfuel)
      exact parseValue_emptyObject h rest fuel
  | @array parts hne hblank h ih =>
      obtain ⟨fuel, rfl⟩ := Nat.exists_eq_succ_of_ne_zero (Nat.ne_zero_of_lt hfuel)
      rw [length_arrayText, List.map_map] at hfuel
      obtain ⟨hlength, hparts⟩ := length_lt_of_bracketed hne hfuel
      refine parseValue_array hne hblank h hlength (fun part hpart rest hrest => ?_) rest
      refine ih part hpart hrest (Nat.le_trans ?_ (hparts part hpart))
      simp only [ItemPart.all, List.length_append]
      omega
  | @object parts hne hblank h ih =>
      obtain ⟨fuel, rfl⟩ := Nat.exists_eq_succ_of_ne_zero (Nat.ne_zero_of_lt hfuel)
      rw [length_objectText, List.map_map] at hfuel
      obtain ⟨hlength, hparts⟩ := length_lt_of_bracketed hne hfuel
      refine parseValue_object hne hblank h hlength (fun part hpart rest hrest => ?_) rest
      refine ih part hpart hrest (Nat.le_trans ?_ (hparts part hpart))
      simp only [MemberPart.all, ItemPart.all, List.length_append, List.length_cons]
      omega

/-- The parser accepts exactly the texts of the grammar. -/
theorem parse_eq_some_iff {text : Str} {v : JsonTree} : parse text = some v ↔ ReadsText text v := by
  constructor
  · intro h
    rw [parse] at h
    split at h
    · rename_i v' rest hvalue
      split at h
      · rename_i hrest
        cases h
        obtain ⟨_, rfl, part, rfl, rfl, hpart, hreads⟩ := parseValue_sound _ _ _ _ hvalue
        obtain ⟨w, hw, hsplit⟩ := exists_blanks rest
        rw [hrest, List.append_nil] at hsplit
        refine ⟨part.before, part.text, part.after ++ rest, ?_, hpart.before,
          isBlank_append hpart.after (hsplit ▸ hw), hreads⟩
        simp [ItemPart.all]
      · cases h
    · cases h
  · rintro ⟨before, body, after, rfl, hbefore, hafter, hreads⟩
    have hfollows : Follows after := by
      have h : Follows (after ++ []) := follows_append hafter fun _ h => by cases h
      rwa [List.append_nil] at h
    have hlength : body.length ≤ (before ++ body ++ after).length := by
      simp only [List.length_append]
      omega
    have hvalue := parseValue_complete hreads hfollows hlength
    have hskip : skipBlanks after = [] := by
      have h : skipBlanks (after ++ []) = [] := skipBlanks_append hafter fun _ h => by cases h
      rwa [List.append_nil] at h
    have hfront : parseValue (before ++ body ++ after).length (before ++ body ++ after) =
        some (v, after) := by
      rw [parseValue_blank hbefore hreads]
      exact hvalue
    rw [parse, hfront]
    exact if_pos hskip

/-- No text is one of two values. -/
theorem ReadsText.unique {text : Str} {v w : JsonTree} (hv : ReadsText text v)
    (hw : ReadsText text w) : v = w :=
  Option.some.inj ((parse_eq_some_iff.mpr hv).symm.trans (parse_eq_some_iff.mpr hw))

end JsonTree
