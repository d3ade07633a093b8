import Mathlib.Algebra.BigOperators.Group.List.Basic
import Mathlib.Algebra.Order.BigOperators.Group.List
import Mathlib.Data.List.Dedup
import Mathlib.Data.List.Nodup
import K6Rs.Library.Hex
import K6Rs.Library.Json

/-! The texts of JSON values by their grammar. No text of a value is shorter than its size. -/

/-- A value as a text gives it: a number by its text, the members of an object in their order and
with repeated keys. -/
inductive JsonTree where
  | null
  | bool (b : Bool)
  | number (text : Str)
  | string (s : Str)
  | array (items : List JsonTree)
  | object (members : List (Str × JsonTree))

namespace JsonTree

/-! ## The grammar -/

def IsBlank (w : Str) : Prop := ∀ c ∈ w, c = ' ' ∨ c = '\t' ∨ c = '\n' ∨ c = '\r'

def IsDigits (s : Str) : Prop := s ≠ [] ∧ ∀ c ∈ s, c.isDigit = true

/-- The text of a number: a sign, an integer without leading zeros, a fraction and an exponent. -/
structure IsNumber (text : Str) : Prop where
  parts : ∃ sign int frac exp, text = sign ++ int ++ frac ++ exp ∧ (sign = [] ∨ sign = ['-']) ∧
    IsDigits int ∧ (int = ['0'] ∨ int.head? ≠ some '0') ∧
      (frac = [] ∨ ∃ ds, frac = '.' :: ds ∧ IsDigits ds) ∧
    (exp = [] ∨ ∃ e expSign ds, exp = e :: (expSign ++ ds) ∧ (e = 'e' ∨ e = 'E') ∧
      (expSign = [] ∨ expSign = ['+'] ∨ expSign = ['-']) ∧ IsDigits ds)

/-- The character that a backslash and a letter stand for. -/
def simpleEscape : Char → Option Char
  | '"' => some '"'
  | '\\' => some '\\'
  | '/' => some '/'
  | 'b' => some (.ofNat 8)
  | 'f' => some (.ofNat 12)
  | 'n' => some '\n'
  | 'r' => some '\r'
  | 't' => some '\t'
  | _ => none

/-- The number of four hexadecimal digits. -/
def hexQuad (a b c d : Char) : Option ℕ := do
  return 4096 * (← Hex.digitValue a) + 256 * (← Hex.digitValue b) + 16 * (← Hex.digitValue c) +
    (← Hex.digitValue d)

/-- What stands between the quotes of a string, and the string. -/
inductive StringBody : Str → Str → Prop where
  | nil : StringBody [] []
  | plain {c t s} (hquote : c ≠ '"') (hbackslash : c ≠ '\\') (hcontrol : 32 ≤ c.toNat)
        (rest : StringBody t s) :
      StringBody (c :: t) (c :: s)
  | escape {e c t s} (h : simpleEscape e = some c) (rest : StringBody t s) :
        StringBody ('\\' :: e :: t) (c :: s)
  | unicode {a b c d n t s} (h : hexQuad a b c d = some n) (hsurrogate : n < 0xD800 ∨ 0xDFFF < n)
      (rest : StringBody t s) : StringBody ('\\' :: 'u' :: a :: b :: c :: d :: t) (.ofNat n :: s)
  | pair {a b c d high a' b' c' d' low t s} (hhigh : hexQuad a b c d = some high)
      (hlow : hexQuad a' b' c' d' = some low) (hhighRange : 0xD800 ≤ high ∧ high ≤ 0xDBFF)
      (hlowRange : 0xDC00 ≤ low ∧ low ≤ 0xDFFF) (rest : StringBody t s) :
      StringBody ('\\' :: 'u' :: a :: b :: c :: d :: '\\' :: 'u' :: a' :: b' :: c' :: d' :: t)
        (.ofNat (0x10000 + 0x400 * (high - 0xD800) + (low - 0xDC00)) :: s)

/-- An item of an array with the blanks around it. -/
structure ItemPart where
  before : Str
  text : Str
  after : Str
  value : JsonTree

/-- A member of an object with the blanks around its key and its value. -/
structure MemberPart where
  before : Str
  keyBody : Str
  afterKey : Str
  item : ItemPart
  key : Str

def ItemPart.all (part : ItemPart) : Str := part.before ++ part.text ++ part.after

def MemberPart.all (part : MemberPart) : Str :=
  part.before ++ '"' :: (part.keyBody ++ '"' :: (part.afterKey ++ ':' :: part.item.all))

structure ItemPart.WellFormed (part : ItemPart) : Prop where
  before : JsonTree.IsBlank part.before
  after : JsonTree.IsBlank part.after

structure MemberPart.WellFormed (part : MemberPart) : Prop where
  before : JsonTree.IsBlank part.before
  afterKey : JsonTree.IsBlank part.afterKey
  item : part.item.WellFormed
  key : StringBody part.keyBody part.key

def arrayText (texts : List Str) : Str := '[' :: ([','].intercalate texts ++ [']'])

def objectText (texts : List Str) : Str := '{' :: ([','].intercalate texts ++ ['}'])

/-- The text is one of the value, without blanks around it. -/
inductive Reads : Str → JsonTree → Prop where
  | null : Reads "null".toList .null
  | bool (b : Bool) : Reads (if b then "true" else "false").toList (.bool b)
  | number {text} (h : IsNumber text) : Reads text (.number text)
  | string {body s} (h : StringBody body s) : Reads ('"' :: (body ++ ['"'])) (.string s)
  | emptyArray {w} (h : IsBlank w) : Reads (arrayText [w]) (.array [])
  | array {parts : List ItemPart} (hne : parts ≠ []) (hblank : ∀ part ∈ parts, part.WellFormed)
      (h : ∀ part ∈ parts, Reads part.text part.value) :
      Reads (arrayText (parts.map ItemPart.all)) (.array (parts.map ItemPart.value))
  | emptyObject {w} (h : IsBlank w) : Reads (objectText [w]) (.object [])
  | object {parts : List MemberPart} (hne : parts ≠ []) (hblank : ∀ part ∈ parts, part.WellFormed)
      (h : ∀ part ∈ parts, Reads part.item.text part.item.value) :
      Reads (objectText (parts.map MemberPart.all))
        (.object (parts.map fun part => (part.key, part.item.value)))

/-- A whole text of a value. -/
def ReadsText (text : Str) (v : JsonTree) : Prop :=
  ∃ before body after, text = before ++ body ++ after ∧ IsBlank before ∧ IsBlank after ∧
    Reads body v

/-! ## Sizes -/

mutual

/-- The length of the shortest text. -/
def size : JsonTree → ℕ
  | .null => 4
  | .bool b => if b then 4 else 5
  | .number text => text.length
  | .string s => (JsonText.string s).length
  | .array items => 2 + (itemsSize items - 1)
  | .object members => 2 + (membersSize members - 1)

def itemsSize : List JsonTree → ℕ
  | [] => 0
  | v :: vs => size v + 1 + itemsSize vs

def membersSize : List (Str × JsonTree) → ℕ
  | [] => 0
  | (k, v) :: ms => (JsonText.string k).length + 1 + size v + 1 + membersSize ms

end

theorem itemsSize_eq (items : List JsonTree) :
    itemsSize items = (items.map fun v => v.size + 1).sum := by
  induction items with
  | nil => rfl
  | cons v vs ih => rw [itemsSize, ih, List.map_cons, List.sum_cons]

/-- The size of a member with its comma. -/
def memberSize (member : Str × JsonTree) : ℕ :=
  (JsonText.string member.1).length + 1 + member.2.size + 1

theorem membersSize_eq (members : List (Str × JsonTree)) :
    membersSize members = (members.map memberSize).sum := by
  induction members with
  | nil => rfl
  | cons m ms ih => rw [membersSize, ih, List.map_cons, List.sum_cons, memberSize]

theorem length_intercalate (c : Char) (texts : List Str) :
    ([c].intercalate texts).length = (texts.map fun text => text.length + 1).sum - 1 := by
  induction texts with
  | nil => rfl
  | cons text texts ih =>
      cases texts with
      | nil => simp
      | cons next texts =>
          rw [List.intercalate_cons_cons, List.length_append, List.length_append, ih]
          simp
          omega

theorem length_arrayText (texts : List Str) :
    (arrayText texts).length = 2 + ((texts.map fun text => text.length + 1).sum - 1) := by
  rw [arrayText, List.length_cons, List.length_append, length_intercalate, List.length_singleton]
  omega

theorem length_objectText (texts : List Str) :
    (objectText texts).length = 2 + ((texts.map fun text => text.length + 1).sum - 1) := by
  rw [objectText, List.length_cons, List.length_append, length_intercalate, List.length_singleton]
  omega

theorem length_escape_le (c : Char) : (JsonText.escape c).length ≤ 6 := by
  unfold JsonText.escape
  split_ifs <;> simp

/-- An escape of two characters is as short as that of the printer. -/
theorem length_escape_of_simpleEscape {e c : Char} (h : simpleEscape e = some c) :
    (JsonText.escape c).length ≤ 2 := by
  unfold simpleEscape at h
  split at h <;> first | (cases h; decide) | nomatch h

theorem escape_of_plain {c : Char} (hquote : c ≠ '"') (hbackslash : c ≠ '\\')
    (hcontrol : 32 ≤ c.toNat) :
    JsonText.escape c = [c] := by
  have hne (d : Char) (hd : d.toNat < 32) : c ≠ d := by
    rintro rfl
    omega
  rw [JsonText.escape, if_neg hquote, if_neg hbackslash, if_neg (hne '\n' (by decide)),
    if_neg (hne '\r' (by decide)), if_neg (hne '\t' (by decide)), if_neg (by omega),
    if_neg (by omega), if_neg (by omega)]

/-- No body of a string is shorter than the printed one. -/
theorem length_le_of_stringBody {body s : Str} (h : StringBody body s) :
    (s.flatMap JsonText.escape).length ≤ body.length := by
  induction h with
  | nil => exact le_rfl
  | plain hquote hbackslash hcontrol rest ih =>
      rw [List.flatMap_cons, List.length_append, escape_of_plain hquote hbackslash hcontrol]
      simp only [List.length_cons, List.length_nil]
      omega
  | escape h rest ih =>
      have hescape := length_escape_of_simpleEscape h
      simp only [List.flatMap_cons, List.length_append, List.length_cons]
      omega
  | @unicode a b c d n t s h hsurrogate rest ih =>
      have hescape := length_escape_le (.ofNat n)
      simp only [List.flatMap_cons, List.length_append, List.length_cons]
      omega
  | @pair a b c d high a' b' c' d' low t s hhigh hlow hhighRange hlowRange rest ih =>
      have hescape := length_escape_le (.ofNat (0x10000 + 0x400 * (high - 0xD800) + (low - 0xDC00)))
      simp only [List.flatMap_cons, List.length_append, List.length_cons]
      omega

/-- No text of a value is shorter than its size. -/
theorem size_le_of_reads {text : Str} {v : JsonTree} (h : Reads text v) : v.size ≤ text.length := by
  induction h with
  | null => decide
  | bool b => cases b <;> decide
  | number h => exact le_rfl
  | string h =>
      have hbody := length_le_of_stringBody h
      simp only [size, JsonText.string, List.length_cons, List.length_append]
      omega
  | emptyArray h =>
      rw [length_arrayText, size, itemsSize]
      omega
  | @array parts hne hblank h ih =>
      have hsum : ((parts.map ItemPart.value).map fun v => v.size + 1).sum ≤
          ((parts.map ItemPart.all).map fun text => text.length + 1).sum := by
        rw [List.map_map, List.map_map]
        refine List.sum_le_sum fun part hpart => ?_
        have hpartSize := ih part hpart
        simp only [Function.comp_apply, ItemPart.all, List.length_append]
        omega
      rw [length_arrayText, size, itemsSize_eq]
      omega
  | emptyObject h =>
      rw [length_objectText, size, membersSize]
      omega
  | @object parts hne hblank h ih =>
      have hsum : ((parts.map fun part => (part.key, part.item.value)).map memberSize).sum ≤
          ((parts.map MemberPart.all).map fun text => text.length + 1).sum := by
        rw [List.map_map, List.map_map]
        refine List.sum_le_sum fun part hpart => ?_
        have hpartSize := ih part hpart
        have hkey := length_le_of_stringBody (hblank part hpart).key
        simp only [Function.comp_apply, memberSize, JsonText.string, MemberPart.all, ItemPart.all,
          List.length_append, List.length_cons, List.length_nil]
        omega
      rw [length_objectText, size, membersSize_eq]
      omega

/-! ## Printed texts -/

theorem stringBody_append {t t' s s' : Str} (h : StringBody t s) (h' : StringBody t' s') :
    StringBody (t ++ t') (s ++ s') := by
  induction h with
  | nil => exact h'
  | plain hquote hbackslash hcontrol rest ih => exact .plain hquote hbackslash hcontrol ih
  | escape h rest ih => exact .escape h ih
  | unicode h hsurrogate rest ih => exact .unicode h hsurrogate ih
  | pair hhigh hlow hhighRange hlowRange rest ih => exact .pair hhigh hlow hhighRange hlowRange ih

theorem stringBody_escape (c : Char) : StringBody (JsonText.escape c) [c] := by
  unfold JsonText.escape
  split
  · rename_i h
    exact .escape (by rw [h]; rfl) .nil
  split
  · rename_i h
    exact .escape (by rw [h]; rfl) .nil
  split
  · rename_i h
    exact .escape (by rw [h]; rfl) .nil
  split
  · rename_i h
    exact .escape (by rw [h]; rfl) .nil
  split
  · rename_i h
    exact .escape (by rw [h]; rfl) .nil
  split
  · rename_i h
    exact .escape (by rw [← Char.ofNat_toNat c, h]; rfl) .nil
  split
  · rename_i h
    exact .escape (by rw [← Char.ofNat_toNat c, h]; rfl) .nil
  split
  · rename_i h
    have hhigh := Hex.digitValue_digitChar (show c.toNat / 16 < 16 by omega)
    have hlow := Hex.digitValue_digitChar (Nat.mod_lt c.toNat (show 16 > 0 by decide))
    have hzero : Hex.digitValue '0' = some 0 := by decide
    have hquad : hexQuad '0' '0' (JsonText.hexDigit (c.toNat / 16)) (JsonText.hexDigit
        (c.toNat % 16)) =
        some c.toNat := by
      simp only [hexQuad, JsonText.hexDigit, hhigh, hlow, hzero, Option.bind_eq_bind,
        Option.bind_some, Option.pure_def, Option.some.injEq]
      omega
    have hbody := StringBody.unicode hquad (.inl (by omega)) .nil
    rwa [Char.ofNat_toNat] at hbody
  · rename_i hquote hbackslash _ _ _ _ _ hcontrol
    exact .plain hquote hbackslash (by omega) .nil

theorem stringBody_flatMap_escape (s : Str) : StringBody (s.flatMap JsonText.escape) s := by
  induction s with
  | nil => exact .nil
  | cons c s ih => exact stringBody_append (stringBody_escape c) ih

theorem reads_string (s : Str) : Reads (JsonText.string s) (.string s) :=
  .string (stringBody_flatMap_escape s)

/-- A text without characters that must be escaped is its own body. -/
theorem stringBody_self {s : Str} (h : ∀ c ∈ s, c ≠ '"' ∧ c ≠ '\\' ∧ 32 ≤ c.toNat) :
    StringBody s s := by
  induction s with
  | nil => exact .nil
  | cons c s ih =>
      rw [List.forall_mem_cons] at h
      exact .plain h.1.1 h.1.2.1 h.1.2.2 (ih h.2)

theorem length_escape_pos (c : Char) : 1 ≤ (JsonText.escape c).length := by
  unfold JsonText.escape
  split_ifs <;> simp

theorem two_le_length_escape {c : Char} (h : ¬(c ≠ '"' ∧ c ≠ '\\' ∧ 32 ≤ c.toNat)) :
    2 ≤ (JsonText.escape c).length := by
  unfold JsonText.escape
  split_ifs with hquote hbackslash _ _ _ _ _ hcontrol
  case neg => exact absurd ⟨hquote, hbackslash, by omega⟩ h
  all_goals simp

theorem length_le_flatMap_escape (s : Str) : s.length ≤ (s.flatMap JsonText.escape).length := by
  induction s with
  | nil => exact le_rfl
  | cons c s ih =>
      have hc := length_escape_pos c
      rw [List.flatMap_cons, List.length_append, List.length_cons]
      omega

theorem length_string (s : Str) : (JsonText.string s).length =
    (s.flatMap JsonText.escape).length + 2 := by
  rw [JsonText.string, List.length_cons, List.length_append, List.length_singleton]

/-- The printed string is longer than the string between quotes when a character must be escaped. -/
theorem length_lt_string {s : Str} {c : Char} (hc : c ∈ s)
    (h : ¬(c ≠ '"' ∧ c ≠ '\\' ∧ 32 ≤ c.toNat)) :
    s.length + 2 < (JsonText.string s).length := by
  obtain ⟨t, u, rfl⟩ := List.append_of_mem hc
  have ht := length_le_flatMap_escape t
  have hu := length_le_flatMap_escape u
  have hescape := two_le_length_escape h
  rw [length_string, List.flatMap_append, List.flatMap_cons]
  simp only [List.length_append, List.length_cons]
  omega

theorem isBlank_nil : IsBlank [] := List.forall_mem_nil _

/-- An array of texts without blanks. -/
theorem reads_arrayText {items : List (Str × JsonTree)} (h : ∀ item ∈ items, Reads item.1 item.2) :
    Reads (arrayText (items.map Prod.fst)) (.array (items.map Prod.snd)) := by
  by_cases hne : items = []
  · subst hne
    exact .emptyArray isBlank_nil
  · let part (item : Str × JsonTree) : ItemPart := ⟨[], item.1, [], item.2⟩
    have hreads := @Reads.array (items.map part) (by simpa using hne)
      (by rw [List.forall_mem_map]; exact fun _ _ => ⟨isBlank_nil, isBlank_nil⟩)
      (by rw [List.forall_mem_map]; exact h)
    have htexts : (items.map part).map ItemPart.all = items.map Prod.fst := by
      simp [part, ItemPart.all, Function.comp_def]
    rw [htexts, List.map_map] at hreads
    exact hreads

/-- A member without blanks whose key stands as it is between quotes. -/
def memberText (key text : Str) : Str := '"' :: (key ++ '"' :: ':' :: text)

/-- An object of members without blanks, by their keys, texts and values. -/
theorem reads_objectText {members : List (Str × Str × JsonTree)}
    (hkeys : ∀ member ∈ members, ∀ c ∈ member.1, c ≠ '"' ∧ c ≠ '\\' ∧ 32 ≤ c.toNat)
    (h : ∀ member ∈ members, Reads member.2.1 member.2.2) :
    Reads (objectText (members.map fun member => memberText member.1 member.2.1))
      (.object (members.map fun member => (member.1, member.2.2))) := by
  by_cases hne : members = []
  · subst hne
    exact .emptyObject isBlank_nil
  · let part (member : Str × Str × JsonTree) : MemberPart :=
      ⟨[], member.1, [], ⟨[], member.2.1, [], member.2.2⟩, member.1⟩
    have hreads := @Reads.object (members.map part) (by simpa using hne)
      (by
        rw [List.forall_mem_map]
        exact fun member hmem =>
          ⟨isBlank_nil, isBlank_nil, ⟨isBlank_nil, isBlank_nil⟩,
            stringBody_self (hkeys member hmem)⟩)
      (by rw [List.forall_mem_map]; exact h)
    have htexts : (members.map part).map MemberPart.all = members.map fun member =>
        memberText member.1 member.2.1 := by
      simp [part, MemberPart.all, ItemPart.all, memberText, Function.comp_def]
    rw [htexts, List.map_map] at hreads
    exact hreads

/-! ## Members -/

/-- The value under a key: a later member takes the place of an earlier one. -/
def lastValue (members : List (Str × JsonTree)) (key : Str) : Option JsonTree :=
  members.reverse.lookup key

theorem mem_of_lastValue {members : List (Str × JsonTree)} {key : Str} {v : JsonTree}
    (h : lastValue members key = some v) : (key, v) ∈ members := by
  obtain ⟨front, back, hmembers, -⟩ := List.lookup_eq_some_iff.mp h
  have hmem : (key, v) ∈ members.reverse := by simp [hmembers]
  exact List.mem_reverse.mp hmem

theorem mem_keys_iff {α β : Type*} [BEq α] [LawfulBEq α] {l : List (α × β)} {key : α} :
    key ∈ l.map Prod.fst ↔ (l.lookup key).isSome = true := by
  rw [List.lookup_isSome_iff, List.mem_map]
  simp only [beq_iff_eq]
  exact ⟨fun ⟨p, hp, hkey⟩ => ⟨p, hp, hkey.symm⟩, fun ⟨p, hp, hkey⟩ => ⟨p, hp, hkey.symm⟩⟩

/-- Without repeated keys, the value under a key is that of its member. -/
theorem lookup_of_mem {α β : Type*} [BEq α] [LawfulBEq α] {l : List (α × β)} {key : α} {v : β}
    (hnodup : (l.map Prod.fst).Nodup) (h : (key, v) ∈ l) : l.lookup key = some v := by
  obtain ⟨front, back, rfl⟩ := List.append_of_mem h
  rw [List.lookup_eq_some_iff]
  refine ⟨front, back, rfl, fun member hmem => ?_⟩
  rw [List.map_append, List.nodup_append'] at hnodup
  have hne : key ≠ member.1 := by
    rintro rfl
    exact hnodup.2.2 (List.mem_map_of_mem hmem) List.mem_cons_self
  simpa using hne

theorem lastValue_of_mem {members : List (Str × JsonTree)} {key : Str} {v : JsonTree}
    (hnodup : (members.map Prod.fst).Nodup) (h : (key, v) ∈ members) :
    lastValue members key = some v := by
  apply lookup_of_mem
  · rwa [List.map_reverse, List.nodup_reverse]
  · exact List.mem_reverse.mpr h

/-- An object is no smaller than distinct members of it. -/
theorem size_object_le {l members : List (Str × JsonTree)} (hnodup : (l.map Prod.fst).Nodup)
    (h : l ⊆ members) :
    (object l).size ≤ (object members).size := by
  obtain ⟨l', hperm, hsublist⟩ := List.subperm_of_subset (List.Nodup.of_map _ hnodup) h
  have hsum : (l.map memberSize).sum ≤ (members.map memberSize).sum := by
    rw [← (hperm.map memberSize).sum_eq]
    exact (hsublist.map memberSize).sum_le_sum (fun _ _ => Nat.zero_le _)
  rw [size, size, membersSize_eq, membersSize_eq]
  omega

theorem size_le_of_readsText {text : Str} {v : JsonTree} (h : ReadsText text v) :
    v.size ≤ text.length := by
  obtain ⟨before, body, after, rfl, -, -, hreads⟩ := h
  have hsize := size_le_of_reads hreads
  simp only [List.length_append]
  omega

end JsonTree
