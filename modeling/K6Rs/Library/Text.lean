import K6Rs.Library.Trim
import Mathlib.Algebra.Group.Int.Defs
import Mathlib.Algebra.GroupWithZero.Nat
import Mathlib.Data.Bool.AllAny
import Mathlib.Data.List.Chain
import Mathlib.Data.String.Basic

/-! Strings as lists of Unicode scalar values: trimming, searching for a character,
slicing and splitting. -/

/-- A string as the list of its characters. -/
abbrev Str := List Char

namespace Str

instance lawfulBEq : LawfulBEq Str := inferInstance

/-- The Unicode property `White_Space`. -/
def isWhitespace (c : Char) : Bool :=
  let n := c.toNat
  (9 ≤ n && n ≤ 13) || n == 0x20 || n == 0x85 || n == 0xA0 || n == 0x1680 ||
    (0x2000 ≤ n && n ≤ 0x200A) || n == 0x2028 || n == 0x2029 || n == 0x202F ||
    n == 0x205F || n == 0x3000

def trimStart (s : Str) : Str := s.dropWhile isWhitespace

def trimEnd (s : Str) : Str := s.rdropWhile isWhitespace

/-- The string without leading and trailing white space. -/
def trim (s : Str) : Str := trimEnd (trimStart s)

/-- The string with its ASCII capitals made small. -/
def asciiLower (s : Str) : Str := s.map Char.toLower

/-- Whether two strings are the same up to the case of their ASCII letters. -/
def eqIgnoreAsciiCase (s t : Str) : Bool := asciiLower s = asciiLower t

/-- The position of the first occurrence of `c`. -/
def find (c : Char) : Str → Option ℕ
  | [] => none
  | a :: s => if a = c then some 0 else (find c s).map (· + 1)

/-- The position of the last occurrence of `c`. -/
def rfind (c : Char) (s : Str) : Option ℕ :=
  (find c s.reverse).map fun i => s.length - 1 - i

/-- The position of the first occurrence of the text `pat`. -/
def findText (pat : Str) : Str → Option ℕ
  | [] => if pat = [] then some 0 else none
  | a :: s => if pat.isPrefixOf (a :: s) then some 0 else (findText pat s).map (· + 1)

/-- The characters from position `i` up to, but without, position `j`. -/
def slice (s : Str) (i j : ℕ) : Str := (s.take j).drop i

/-- The two parts around the first `c`; there is no second part without a `c`. -/
def splitOnce (c : Char) (s : Str) : Str × Option Str :=
  match find c s with
  | none => (s, none)
  | some i => (s.take i, some (s.drop (i + 1)))

/-- The parts of a text between the doubled occurrences of `sep`, of which the first begins with
the reverse of `front`. -/
def splitDoubledFrom (sep : Char) (front : Str) : Str → List Str
  | [] => [front.reverse]
  | [c] => [(c :: front).reverse]
  | c :: d :: s =>
      if c = sep ∧ d = sep then front.reverse :: splitDoubledFrom sep [] s
      else splitDoubledFrom sep (c :: front) (d :: s)

/-- `split` at the text of two `sep`. -/
def splitDoubled (sep : Char) (s : Str) : List Str := splitDoubledFrom sep [] s

/-- A line without the carriage return at its end. -/
def stripReturn (s : Str) : Str := if s.getLast? = some '\r' then s.dropLast else s

/-- The lines of a text, of which the first begins with the reverse of `front`. -/
def linesFrom (front : Str) : Str → List Str
  | [] => if front.isEmpty then [] else [front.reverse]
  | c :: s =>
      if c = '\n' then stripReturn front.reverse :: linesFrom [] s else linesFrom (c :: front) s

/-- The lines of a text; a line ends with a newline, or with a carriage return and a newline. -/
def lines (s : Str) : List Str := linesFrom [] s

/-! ## UTF-8 -/

/-- The number of bytes of the string in UTF-8. -/
def utf8Len : Str → ℕ
  | [] => 0
  | c :: s => c.utf8Size + utf8Len s

/-- Whether a character ends before the byte `i`, or the string does. -/
def isCharBoundary : Str → ℕ → Bool
  | _, 0 => true
  | [], _ + 1 => false
  | c :: s, i + 1 => c.utf8Size ≤ i + 1 && isCharBoundary s (i + 1 - c.utf8Size)

/-- The last boundary that is not after the byte `i`. -/
def charBoundary (s : Str) : ℕ → ℕ
  | 0 => 0
  | i + 1 => if isCharBoundary s (i + 1) then i + 1 else charBoundary s i

/-- The characters that end within the first `i` bytes. -/
def truncate : Str → ℕ → Str
  | [], _ => []
  | c :: s, i => if c.utf8Size ≤ i then c :: truncate s (i - c.utf8Size) else []

/-- The byte at which the first occurrence of the text `pat` begins. -/
def findTextByte (pat s : Str) : Option ℕ := (findText pat s).map fun i => utf8Len (s.take i)

/-- The byte at which the first `c` begins. -/
def findByte (c : Char) (s : Str) : Option ℕ := (find c s).map fun i => utf8Len (s.take i)

/-- The text from the byte `i` up to, but without, the byte `j`, when both are boundaries. -/
def byteSlice (s : Str) (i j : ℕ) : Option Str :=
  if i ≤ j && isCharBoundary s i && isCharBoundary s j then
    some ((truncate s j).drop (truncate s i).length)
  else none

theorem charBoundary_le (s : Str) (i : ℕ) : charBoundary s i ≤ i := by
  fun_induction charBoundary s i with
  | case1 => exact le_rfl
  | case2 i h => exact le_rfl
  | case3 i h ih => exact Nat.le_succ_of_le ih

theorem utf8Len_truncate_le (s : Str) (i : ℕ) : utf8Len (truncate s i) ≤ i := by
  fun_induction truncate s i with
  | case1 i => exact Nat.zero_le i
  | case2 c s i h ih =>
      rw [utf8Len]
      omega
  | case3 c s i h => exact Nat.zero_le i

@[simp] theorem utf8Len_append (s t : Str) : utf8Len (s ++ t) = utf8Len s + utf8Len t := by
  induction s with
  | nil => simp [utf8Len]
  | cons c s ih => simp [utf8Len, ih, Nat.add_assoc]

theorem utf8Len_pos {s : Str} {c : Char} (h : c ∈ s) : 0 < utf8Len s := by
  cases s with
  | nil => cases h
  | cons a s =>
      rw [utf8Len]
      exact Nat.add_pos_left a.utf8Size_pos _

theorem isCharBoundary_append (s t : Str) : isCharBoundary (s ++ t) (utf8Len s) = true := by
  induction s with
  | nil => rw [utf8Len, isCharBoundary.eq_def]
  | cons c s ih =>
      have hc := c.utf8Size_pos
      obtain ⟨k, hk⟩ : ∃ k, c.utf8Size + utf8Len s = k + 1 := ⟨c.utf8Size + utf8Len s - 1, by omega⟩
      have hrest : k + 1 - c.utf8Size = utf8Len s := by omega
      have hle : c.utf8Size ≤ k + 1 := by omega
      simp [utf8Len, hk, isCharBoundary, hrest, ih, hle]

theorem truncate_append (s t : Str) : truncate (s ++ t) (utf8Len s) = s := by
  induction s with
  | nil =>
      cases t with
      | nil => rfl
      | cons c t => simp [utf8Len, truncate, c.utf8Size_pos.ne']
  | cons c s ih => simp [utf8Len, truncate, ih]

/-- A slice between two ends of whole texts is what stands between them. -/
theorem byteSlice_append (s t u : Str) :
    byteSlice (s ++ t ++ u) (utf8Len s) (utf8Len (s ++ t)) = some t := by
  have hstart : isCharBoundary (s ++ t ++ u) (utf8Len s) = true := by
    rw [List.append_assoc]
    exact isCharBoundary_append s (t ++ u)
  have hcut : truncate (s ++ t ++ u) (utf8Len s) = s := by
    rw [List.append_assoc]
    exact truncate_append s (t ++ u)
  rw [byteSlice, hstart, isCharBoundary_append (s ++ t) u, hcut, truncate_append (s ++ t) u]
  simp

/-- Every character has one byte. -/
def IsAscii (s : Str) : Prop := ∀ c ∈ s, c.utf8Size = 1

instance (s : Str) : Decidable (IsAscii s) := inferInstanceAs (Decidable (∀ c ∈ s, c.utf8Size = 1))

theorem IsAscii.utf8Len {s : Str} (h : IsAscii s) : s.utf8Len = s.length := by
  induction s with
  | nil => rfl
  | cons c s ih =>
      have hrest : IsAscii s := fun d hd => h d (List.mem_cons_of_mem c hd)
      rw [Str.utf8Len, h c List.mem_cons_self, ih hrest, List.length_cons, Nat.add_comm]

theorem byteSlice_cons_succ {c : Char} (hc : c.utf8Size = 1) (s : Str) (i j : ℕ) :
    byteSlice (c :: s) (i + 1) (j + 1) = byteSlice s i j := by
  simp [byteSlice, isCharBoundary, truncate, hc]

theorem byteSlice_pair {c d : Char} (hc : c.utf8Size = 1) (hd : d.utf8Size = 1) (s : Str) :
    byteSlice (c :: d :: s) 0 2 = some [c, d] := by
  have hpair := byteSlice_append [] [c, d] s
  rwa [utf8Len, List.nil_append, utf8Len, utf8Len, utf8Len, hc, hd] at hpair

theorem byteSlice_single {c : Char} (hc : c.utf8Size = 1) : byteSlice [c] 0 2 = none := by
  simp [byteSlice, isCharBoundary, hc]

/-! ## Searching -/

theorem find_eq_none_iff (c : Char) (s : Str) : find c s = none ↔ c ∉ s := by
  induction s with
  | nil => simp [find]
  | cons a s ih =>
      by_cases h : a = c
      · simp [find, h]
      · simp [find, h, ih, Ne.symm h]

theorem find_append_cons (c : Char) (s t : Str) (h : c ∉ s) :
    find c (s ++ c :: t) = some s.length := by
  induction s with
  | nil => simp [find]
  | cons a s ih =>
      simp only [List.mem_cons, not_or] at h
      simp [find, Ne.symm h.1, ih h.2]

theorem find_eq_some_iff (c : Char) (s : Str) (i : ℕ) :
    find c s = some i ↔ ∃ u v, s = u ++ c :: v ∧ c ∉ u ∧ u.length = i := by
  constructor
  · intro h
    induction s generalizing i with
    | nil => simp [find] at h
    | cons a s ih =>
        by_cases ha : a = c
        · simp only [find, ha, ite_true, Option.some.injEq] at h
          exact ⟨[], s, by simp [ha], by simp, h⟩
        · simp only [find, ha, ite_false, Option.map_eq_some_iff] at h
          obtain ⟨j, hj, rfl⟩ := h
          obtain ⟨u, v, rfl, hu, rfl⟩ := ih j hj
          exact ⟨a :: u, v, rfl, by simp [hu, Ne.symm ha], rfl⟩
  · rintro ⟨u, v, rfl, hu, rfl⟩
    exact find_append_cons c u v hu

theorem rfind_append_cons (c : Char) (s t : Str) (h : c ∉ t) :
    rfind c (s ++ c :: t) = some s.length := by
  have hrev : (s ++ c :: t).reverse = t.reverse ++ c :: s.reverse := by simp
  rw [rfind, hrev, find_append_cons c _ _ (by simpa using h)]
  simp only [Option.map_some, List.length_append, List.length_cons, List.length_reverse,
    Option.some.injEq]
  omega

theorem rfind_eq_some_iff (c : Char) (s : Str) (i : ℕ) :
    rfind c s = some i ↔ ∃ u v, s = u ++ c :: v ∧ c ∉ v ∧ u.length = i := by
  constructor
  · intro h
    rw [rfind, Option.map_eq_some_iff] at h
    obtain ⟨j, hj, rfl⟩ := h
    obtain ⟨u, v, hrev, hu, rfl⟩ := (find_eq_some_iff c s.reverse j).mp hj
    have hs : s = v.reverse ++ c :: u.reverse := by
      rw [← s.reverse_reverse, hrev]
      simp
    refine ⟨v.reverse, u.reverse, hs, by simpa using hu, ?_⟩
    rw [hs]
    simp only [List.length_append, List.length_cons, List.length_reverse]
    omega
  · rintro ⟨u, v, rfl, hv, rfl⟩
    exact rfind_append_cons c u v hv

theorem findByte_append_cons (c : Char) (s t : Str) (h : c ∉ s) :
    findByte c (s ++ c :: t) = some (utf8Len s) := by
  simp [findByte, find_append_cons c s t h]

theorem take_find {c : Char} {s : Str} {i : ℕ} (h : find c s = some i) :
    s.take i = s.takeWhile (· ≠ c) := by
  obtain ⟨u, v, rfl, hu, rfl⟩ := (find_eq_some_iff c s i).mp h
  have hall : ∀ a ∈ u, decide (a ≠ c) = true := by
    intro a ha
    simpa using fun hac : a = c => hu (hac ▸ ha)
  rw [List.takeWhile_append_of_pos hall]
  simp

theorem takeWhile_of_find_none {c : Char} {s : Str} (h : find c s = none) :
    s.takeWhile (· ≠ c) = s := by
  rw [List.takeWhile_eq_self_iff]
  intro a ha
  simpa using fun hac : a = c => (find_eq_none_iff c s).mp h (hac ▸ ha)

theorem takeWhile_append_cons (c : Char) (s t : Str) :
    (s ++ c :: t).takeWhile (· ≠ c) = s.takeWhile (· ≠ c) := by
  rw [List.takeWhile_append]
  split
  · rename_i hlen
    rw [(List.takeWhile_prefix _).eq_of_length hlen]
    simp
  · rfl

theorem findText_eq_some {pat s : Str} {i : ℕ} (h : findText pat s = some i) :
    s = s.take i ++ pat ++ s.drop (i + pat.length) := by
  induction s generalizing i with
  | nil =>
      simp only [findText, Option.ite_none_right_eq_some, Option.some.injEq] at h
      simp [h.1]
  | cons a s ih =>
      simp only [findText] at h
      split at h
      · rename_i hpre
        obtain rfl : 0 = i := Option.some.inj h
        obtain ⟨t, ht⟩ := List.isPrefixOf_iff_prefix.mp hpre
        simp [← ht]
      · obtain ⟨j, hj, rfl⟩ := Option.map_eq_some_iff.mp h
        have hs := ih hj
        rw [Nat.add_right_comm]
        simpa using hs

/-- The position found is that of the first occurrence. -/
theorem findText_eq_some_iff {pat s : Str} {i : ℕ} :
    findText pat s = some i ↔ pat <+: s.drop i ∧ ∀ j < i, ¬pat <+: s.drop j := by
  induction s generalizing i with
  | nil =>
      simp only [findText, Option.ite_none_right_eq_some, Option.some.injEq, List.drop_nil,
        List.prefix_nil]
      constructor
      · rintro ⟨hpat, rfl⟩
        exact ⟨hpat, by simp⟩
      · rintro ⟨hpat, hfirst⟩
        exact ⟨hpat, by_contra fun hi => hfirst 0 (by omega) hpat⟩
  | cons a s ih =>
      rw [findText]
      split
      · rename_i hpre
        rw [List.isPrefixOf_iff_prefix] at hpre
        rw [Option.some_inj]
        constructor
        · rintro rfl
          exact ⟨hpre, by simp⟩
        · rintro ⟨-, hfirst⟩
          exact by_contra fun hi => hfirst 0 (by omega) hpre
      · rename_i hpre
        rw [List.isPrefixOf_iff_prefix] at hpre
        cases i with
        | zero => simp [hpre]
        | succ i =>
            rw [Option.map_eq_some_iff]
            simp only [Nat.add_right_cancel_iff, exists_eq_right, ih, List.drop_succ_cons]
            refine and_congr_right fun _ => ⟨fun hfirst j hj => ?_, fun hfirst j hj => ?_⟩
            · cases j with
              | zero => exact hpre
              | succ j => exact hfirst j (by omega)
            · exact hfirst (j + 1) (by omega)

theorem isSome_findText_iff {pat s : Str} : (findText pat s).isSome = true ↔ pat <:+: s := by
  induction s with
  | nil =>
      rw [findText, List.infix_nil]
      by_cases h : pat = [] <;> simp [h]
  | cons a s ih =>
      rw [findText, List.infix_cons_iff]
      split
      · rename_i hpre
        exact iff_of_true rfl (.inl (List.isPrefixOf_iff_prefix.mp hpre))
      · rename_i hpre
        rw [List.isPrefixOf_iff_prefix] at hpre
        rw [Option.isSome_map, ih, or_iff_right hpre]

theorem findText_append {pat s : Str} {i : ℕ} (h : findText pat s = some i) (t : Str) :
    findText pat (s ++ t) = some i := by
  induction s generalizing i with
  | nil =>
      simp only [findText, Option.ite_none_right_eq_some, Option.some.injEq] at h
      obtain ⟨rfl, rfl⟩ := h
      cases t <;> simp [findText]
  | cons a s ih =>
      simp only [findText, List.cons_append] at h ⊢
      split at h
      · rename_i hpre
        rw [if_pos, h]
        rw [List.isPrefixOf_iff_prefix] at hpre ⊢
        exact hpre.trans (List.prefix_append (a :: s) t)
      · rename_i hpre
        obtain ⟨j, hj, rfl⟩ := Option.map_eq_some_iff.mp h
        rw [if_neg, ih hj, Option.map_some]
        rw [List.isPrefixOf_iff_prefix] at hpre ⊢
        intro hlong
        -- The text found later is no longer than what it was found in.
        have hlen := congrArg List.length (findText_eq_some hj)
        simp only [List.length_append, List.length_take, List.length_drop] at hlen
        apply hpre
        apply List.prefix_of_prefix_length_le hlong (List.prefix_append (a :: s) t)
        rw [List.length_cons]
        omega

/-- A text of one kind of characters is found where such characters stand. -/
theorem findText_between {p : Char → Prop} {left mid right pat : Str} (hne : pat ≠ [])
    (hpat : ∀ c ∈ pat, p c)
    (hleft : ∀ c ∈ left, ¬p c) (hright : ∀ c ∈ right, ¬p c) :
    findText pat (left ++ mid ++ right) = (findText pat mid).map (· + left.length) := by
  obtain ⟨d, pat, rfl⟩ := List.exists_cons_of_ne_nil hne
  have hd : p d := hpat d List.mem_cons_self
  induction left with
  | nil =>
      simp only [List.nil_append, List.length_nil, Nat.add_zero, Option.map_id']
      induction mid with
      | nil =>
          -- An occurrence in `right` has a character of the kind.
          have hnone : ¬(findText (d :: pat) right).isSome := by
            rw [isSome_findText_iff]
            exact fun hoccurs => hright d (hoccurs.subset List.mem_cons_self) hd
          rw [List.nil_append, Option.not_isSome_iff_eq_none.mp hnone, findText,
            if_neg (List.cons_ne_nil d pat)]
      | cons a mid ih =>
          have hpre : (d :: pat).isPrefixOf (a :: mid ++ right) =
              (d :: pat).isPrefixOf (a :: mid) := by
            rw [Bool.eq_iff_iff, List.isPrefixOf_iff_prefix, List.isPrefixOf_iff_prefix]
            refine ⟨fun h => ?_, fun h => h.trans (List.prefix_append _ _)⟩
            rcases List.prefix_or_prefix_of_prefix h (List.prefix_append (a :: mid) right) with
              h' | ⟨t, ht⟩
            · exact h'
            · rw [← ht, List.prefix_append_right_inj] at h
              cases t with
              | nil =>
                  have heq : d :: pat = a :: mid := by rw [← ht, List.append_nil]
                  exact ⟨[], by rw [List.append_nil, heq]⟩
              | cons b t =>
                  have hb : p b := hpat b (ht ▸ List.mem_append_right _ List.mem_cons_self)
                  exact absurd hb (hright b (h.subset List.mem_cons_self))
          rw [List.cons_append] at hpre ⊢
          rw [findText, findText, hpre, ih]
  | cons a left ih =>
      have ha : d ≠ a := by
        rintro rfl
        exact hleft d List.mem_cons_self hd
      have hrest := ih fun c hc => hleft c (List.mem_cons_of_mem a hc)
      rw [List.cons_append, List.cons_append, findText, hrest, List.isPrefixOf_cons_cons,
        beq_eq_false_iff_ne.mpr ha]
      simp [Function.comp_def, Nat.add_assoc]

/-! ## Trimming -/

theorem trimStart_eq_nil_iff (s : Str) : trimStart s = [] ↔ ∀ c ∈ s, isWhitespace c :=
  Trim.trimStart_eq_nil_iff s

theorem trim_eq_nil_iff (s : Str) : trim s = [] ↔ ∀ c ∈ s, isWhitespace c := Trim.trim_eq_nil_iff s

/-- White space is trimmed from the front alone when the last character stays. -/
theorem trim_append_singleton (s : Str) (c : Char) (hc : isWhitespace c = false) :
    trim (s ++ [c]) = trimStart (s ++ [c]) := Trim.trim_append_singleton s c hc

theorem trimStart_append (s t : Str) (h : ¬∀ c ∈ s, isWhitespace c) :
    trimStart (s ++ t) = trimStart s ++ t := Trim.trimStart_append s t h

@[simp] theorem trim_trim (s : Str) : trim (trim s) = trim s := Trim.trim_trim s

theorem mem_of_mem_trim {s : Str} {c : Char} (h : c ∈ trim s) : c ∈ s := Trim.mem_of_mem_trim h

theorem mem_trim_of_mem {s : Str} {c : Char} (h : c ∈ s) (hc : isWhitespace c = false) :
    c ∈ trim s := Trim.mem_trim_of_mem h hc

theorem trim_append_of_whitespace (s t : Str) (ht : ∀ c ∈ t, isWhitespace c) :
    trim (s ++ t) = trim s := Trim.trim_append_of_trimmed_off s t ht

theorem trim_whitespace_append (s t : Str) (hs : ∀ c ∈ s, isWhitespace c) :
    trim (s ++ t) = trim t := Trim.trim_trimmed_off_append s t hs

/-- What is trimmed off is white space at the two ends. -/
theorem exists_append_trim (s : Str) : ∃ front back, s = front ++ trim s ++ back ∧
    (∀ c ∈ front, isWhitespace c) ∧ ∀ c ∈ back, isWhitespace c := Trim.exists_append_trim s

/-- A trimmed text does not end in white space. -/
theorem eq_nil_of_trim_append {s t : Str} (h : trim (s ++ t) = s ++ t)
    (ht : ∀ c ∈ t, isWhitespace c) : t = [] := Trim.eq_nil_of_trim_append h ht

/-- White space behind a text does not show in its trimmed beginning. -/
theorem trim_takeWhile_trimStart (p : Char → Bool) (s : Str) :
    trim ((trimStart s).takeWhile p) = trim ((trim s).takeWhile p) :=
      Trim.trim_takeWhile_trimStart p s

/-- Two texts without white space at their ends have none at the ends when joined. -/
theorem trim_append_of_trimmed {s t : Str} (hs : trim s = s) (hs0 : s ≠ []) (ht : trim t = t)
    (ht0 : t ≠ []) : trim (s ++ t) = s ++ t := Trim.trim_append_of_trimmed hs hs0 ht ht0

/-! ## Splitting -/

theorem splitOnce_append_cons (c : Char) (s t : Str) (h : c ∉ s) :
    splitOnce c (s ++ c :: t) = (s, some t) := by
  simp [splitOnce, find_append_cons c s t h]

theorem splitOnce_eq_some_iff {c : Char} {s key value : Str} :
    splitOnce c s = (key, some value) ↔ s = key ++ c :: value ∧ c ∉ key := by
  constructor
  · intro h
    rw [splitOnce] at h
    split at h
    · cases h
    · rename_i i hfind
      obtain ⟨u, v, rfl, hu, rfl⟩ := (find_eq_some_iff c s i).mp hfind
      simp only [List.take_left, Prod.mk.injEq, Option.some.injEq] at h
      obtain ⟨rfl, rfl⟩ := h
      simp [hu, List.drop_append]
  · rintro ⟨rfl, h⟩
    exact splitOnce_append_cons c key value h

/-- A part of a split text has no separator. -/
theorem not_mem_of_mem_splitOn {c : Char} {s part : Str} (h : part ∈ List.splitOn c s) :
    c ∉ part := by
  induction s generalizing part with
  | nil =>
      rw [List.splitOn_nil, List.mem_singleton] at h
      simp [h]
  | cons a s ih =>
      rw [List.splitOn_cons_eq_if_modifyHead] at h
      split at h
      · rcases List.mem_cons.mp h with rfl | h
        · exact List.not_mem_nil
        · exact ih h
      · rename_i ha
        cases hsplit : List.splitOn c s with
        | nil => exact absurd hsplit (List.splitOn_ne_nil c s)
        | cons first rest =>
            rw [hsplit] at h ih
            rcases List.mem_cons.mp h with rfl | h
            · have hfirst := ih List.mem_cons_self
              simp only [List.mem_cons, not_or]
              exact ⟨fun hc => ha (by simp [hc]), hfirst⟩
            · exact ih (List.mem_cons_of_mem _ h)

/-- Splitting a joined text splits every part of it. -/
theorem count_intercalate (c d : Char) (hne : d ≠ c) (texts : List Str) :
    ([d].intercalate texts).count c = (texts.map (List.count c)).sum := by
  induction texts with
  | nil => rfl
  | cons text texts ih =>
      cases texts with
      | nil => simp
      | cons text' texts =>
          rw [List.intercalate_cons_cons, List.count_append, List.count_append, ih,
            List.count_cons_of_ne hne, List.count_nil]
          simp

theorem splitOn_intercalate_eq_flatMap (c : Char) (ls : List Str) (h : ls ≠ []) :
    List.splitOn c ([c].intercalate ls) = ls.flatMap (List.splitOn c) := by
  induction ls with
  | nil => exact (h rfl).elim
  | cons l ls ih =>
      cases ls with
      | nil => simp [List.intercalate]
      | cons m ms =>
          have hsep : [c].intercalate (l :: m :: ms) = l ++ c :: [c].intercalate (m :: ms) := by
            simp [List.intercalate]
          rw [hsep, List.splitOn_eq_splitOnP, List.splitOnP_append_cons _ _ (by simp),
            ← List.splitOn_eq_splitOnP, ← List.splitOn_eq_splitOnP, ih (by simp)]
          rfl

/-- Two texts are equal exactly when they have the same parts. -/
theorem splitOn_injective (c : Char) : Function.Injective (List.splitOn c) := by
  intro s t h
  simpa only [List.intercalate_splitOn] using congrArg [c].intercalate h

theorem linesFrom_append (front s t : Str) (h : '\n' ∉ s) :
    linesFrom front (s ++ '\n' :: t) = stripReturn (front.reverse ++ s) :: linesFrom [] t := by
  induction s generalizing front with
  | nil => simp [linesFrom]
  | cons c s ih =>
      simp only [List.mem_cons, not_or] at h
      rw [List.cons_append, linesFrom, if_neg (Ne.symm h.1), ih _ h.2]
      simp

theorem stripReturn_of_not_mem {s : Str} (h : '\r' ∉ s) : stripReturn s = s := by
  rw [stripReturn, if_neg]
  intro hlast
  exact h (List.mem_of_getLast? hlast)

/-- Lines that were written with a newline after each of them are read back. -/
theorem lines_flatMap {α : Type*} (f : α → Str) (l : List α)
    (h : ∀ a ∈ l, '\n' ∉ f a ∧ '\r' ∉ f a) :
    lines (l.flatMap fun a => f a ++ ['\n']) = l.map f := by
  induction l with
  | nil => rfl
  | cons a l ih =>
      have ha := h a (List.mem_cons_self ..)
      have hl := ih fun b hb => h b (List.mem_cons_of_mem a hb)
      rw [lines] at hl
      rw [List.flatMap_cons, List.append_assoc, List.singleton_append, lines,
        linesFrom_append [] (f a) _ ha.1, hl, List.map_cons]
      rw [List.reverse_nil, List.nil_append, stripReturn_of_not_mem ha.2]

/-! ## Doubled separators -/

/-- The separator stands nowhere twice in a row. -/
def Single (sep : Char) (s : Str) : Prop := s.IsChain fun c d => ¬(c = sep ∧ d = sep)

/-- Parts that can be told apart between doubled separators: only the last may end with the
separator itself. -/
def Separable (sep : Char) : List Str → Prop
  | [] => True
  | [p] => Single sep p
  | p :: q :: ps => Single sep (p ++ [sep]) ∧ Separable sep (q :: ps)

/-- The parts, each behind a doubled separator. -/
def joinDoubled (sep : Char) (ps : List Str) : Str := ps.flatMap fun p => sep :: sep :: p

variable {sep : Char}

theorem single_append_of_not_mem {p : Str} (h : sep ∉ p) : Single sep (p ++ [sep]) := by
  refine List.IsChain.append ?_ (List.isChain_singleton _) fun c hc d _ heq => ?_
  · refine List.IsChain.imp_of_mem_imp ?_ (List.isChain_isInfix p)
    exact fun c d hc _ _ heq => h (heq.1 ▸ hc)
  · exact h (heq.1 ▸ List.mem_of_getLast? hc)

theorem Single.of_append {s t : Str} (h : Single sep (s ++ t)) : Single sep s :=
  List.IsChain.left_of_append h

theorem separable_cons {p : Str} {ps : List Str} (hp : Single sep (p ++ [sep]))
    (h : Separable sep ps) : Separable sep (p :: ps) := by
  cases ps with
  | nil => exact hp.of_append
  | cons q ps => exact ⟨hp, h⟩

theorem Separable.of_cons {p : Str} {ps : List Str} (h : Separable sep (p :: ps)) :
    Single sep p ∧ Separable sep ps := by
  cases ps with
  | nil => exact ⟨h, trivial⟩
  | cons q ps => exact ⟨h.1.of_append, h.2⟩

theorem Separable.sublist {ps qs : List Str} (h : Separable sep ps) (hsub : qs.Sublist ps) :
    Separable sep qs := by
  induction hsub with
  | slnil => exact h
  | cons p _ ih => exact ih h.of_cons.2
  | @cons_cons qs ps p hsub ih =>
      cases qs with
      | nil => exact h.of_cons.1
      | cons q qs =>
          cases ps with
          | nil => cases hsub
          | cons r ps => exact ⟨h.1, ih h.2⟩

theorem splitDoubledFrom_append {p : Str} (h : Single sep (p ++ [sep])) (front rest : Str) :
    splitDoubledFrom sep front (p ++ sep :: sep :: rest) =
      (front.reverse ++ p) :: splitDoubledFrom sep [] rest := by
  induction p generalizing front with
  | nil => rw [List.nil_append, splitDoubledFrom, if_pos ⟨rfl, rfl⟩, List.append_nil]
  | cons c p ih =>
      have htail : Single sep (p ++ [sep]) := List.IsChain.tail h
      have hskip : splitDoubledFrom sep front (c :: (p ++ sep :: sep :: rest)) =
          splitDoubledFrom sep (c :: front) (p ++ sep :: sep :: rest) := by
        cases p with
        | nil =>
            have hne := List.IsChain.rel_head? h (y := sep) rfl
            rw [List.nil_append, splitDoubledFrom, if_neg hne]
        | cons d p =>
            have hne := List.IsChain.rel_head? h (y := d) rfl
            rw [List.cons_append, splitDoubledFrom, if_neg hne]
      rw [List.cons_append, hskip, ih htail]
      simp

theorem splitDoubledFrom_single {p : Str} (h : Single sep p) (front : Str) :
    splitDoubledFrom sep front p = [front.reverse ++ p] := by
  induction p generalizing front with
  | nil => simp [splitDoubledFrom]
  | cons c p ih =>
      cases p with
      | nil => simp [splitDoubledFrom]
      | cons d p =>
          have hne := List.IsChain.rel_head? h (y := d) rfl
          rw [splitDoubledFrom, if_neg hne, ih (List.IsChain.tail h)]
          simp

theorem splitDoubled_append_join {p : Str} {ps : List Str} (h : Separable sep (p :: ps)) :
    splitDoubled sep (p ++ joinDoubled sep ps) = p :: ps := by
  induction ps generalizing p with
  | nil =>
      rw [joinDoubled, List.flatMap_nil, List.append_nil, splitDoubled, splitDoubledFrom_single h]
      rfl
  | cons q ps ih =>
      rw [joinDoubled, List.flatMap_cons, List.cons_append, List.cons_append, splitDoubled,
        splitDoubledFrom_append h.1]
      exact congrArg (p :: ·) (ih h.2)

/-- Parts that can be told apart are read back; there is an empty one before the first
separator. -/
theorem splitDoubled_joinDoubled {ps : List Str} (hps : ps ≠ []) (h : Separable sep ps) :
    splitDoubled sep (joinDoubled sep ps) = [] :: ps := by
  cases ps with
  | nil => contradiction
  | cons p ps =>
      have hempty : Single sep ([] ++ [sep]) := List.isChain_singleton _
      rw [joinDoubled, List.flatMap_cons, splitDoubled]
      refine (splitDoubledFrom_append hempty [] _).trans ?_
      exact congrArg ([] :: ·) (splitDoubled_append_join h)

theorem separable_splitDoubledFrom (front s : Str) (h : Single sep (front.reverse ++ s.take 1)) :
    Separable sep (splitDoubledFrom sep front s) := by
  fun_induction splitDoubledFrom sep front s with
  | case1 front =>
      change Single sep front.reverse
      simpa using h
  | case2 front c =>
      change Single sep (c :: front).reverse
      simpa using h
  | case3 front c d s hsep ih =>
      refine separable_cons (by simpa [hsep.1] using h) (ih ?_)
      cases s with
      | nil => exact List.isChain_nil
      | cons e s => exact List.isChain_singleton _
  | case4 front c d s hsep ih =>
      apply ih
      simp only [List.take_succ_cons, List.take_zero, List.reverse_cons] at h ⊢
      refine List.IsChain.append h (List.isChain_singleton _) fun a ha b hb heq => hsep ?_
      simp only [List.getLast?_concat, Option.mem_def, Option.some.injEq] at ha
      simp only [List.head?_cons, Option.mem_def, Option.some.injEq] at hb
      exact ⟨ha ▸ heq.1, hb ▸ heq.2⟩

theorem separable_splitDoubled (s : Str) : Separable sep (splitDoubled sep s) := by
  apply separable_splitDoubledFrom
  cases s with
  | nil => exact List.isChain_nil
  | cons c s => exact List.isChain_singleton _

end Str
