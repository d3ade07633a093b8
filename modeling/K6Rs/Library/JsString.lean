import K6Rs.Library.Text

/-! Strings of a script as lists of UTF-16 code units. -/

abbrev JsString := List UInt16

namespace JsString

/-- A text of characters that are one code unit each. -/
def ofBasic (s : Str) : JsString := s.map fun c => .ofNat c.toNat

/-- The code units of a code point. -/
def codeUnits (n : ℕ) : JsString :=
  if n < 0x10000 then [.ofNat n]
  else [.ofNat (0xD800 + (n - 0x10000) / 0x400), .ofNat (0xDC00 + (n - 0x10000) % 0x400)]

/-- The string with the characters of a text. -/
def ofStr (s : Str) : JsString := s.flatMap fun c => codeUnits c.toNat

def quote : UInt16 := 34

def lineFeed : UInt16 := 10

def carriageReturn : UInt16 := 13

/-- White space and line ends. -/
def isSpace (u : UInt16) : Bool :=
  let n := u.toNat
  (9 ≤ n && n ≤ 13) || n == 0x20 || n == 0xA0 || n == 0x1680 ||
    (0x2000 ≤ n && n ≤ 0x200A) || n == 0x2028 || n == 0x2029 || n == 0x202F || n == 0x205F ||
    n == 0x3000 || n == 0xFEFF

def trim (s : JsString) : JsString := Trim.trim isSpace s

/-! ## Splitting -/

section Split

variable {a u : UInt16} {s part : JsString}

/-- Induction over the parts of a string between separators. -/
theorem split_induction {P : JsString → Prop} (last : ∀ s, a ∉ s → P s)
    (cons : ∀ front rest, a ∉ front → P rest → P (front ++ a :: rest)) (s : JsString) : P s := by
  induction hn : s.length using Nat.strong_induction_on generalizing s with
  | _ n ih =>
      by_cases ha : a ∈ s
      · obtain ⟨front, rest, rfl, hfront⟩ := List.eq_append_cons_of_mem ha
        have hlt : rest.length < n := by
          rw [← hn, List.length_append, List.length_cons]
          omega
        exact cons front rest hfront (ih rest.length hlt rest rfl)
      · exact last s ha

/-- No part has a separator. -/
theorem not_mem_of_mem_splitOn (h : part ∈ s.splitOn a) : a ∉ part := by
  induction s using split_induction (a := a) with
  | last s ha =>
      rw [List.splitOn_eq_singleton ha, List.mem_singleton] at h
      rwa [h]
  | cons front rest hfront ih =>
      rw [List.splitOn_append_cons_self_of_not_mem hfront, List.mem_cons] at h
      rcases h with rfl | h
      · exact hfront
      · exact ih h

/-- What is no separator stands in a part. -/
theorem exists_mem_splitOn (hu : u ∈ s) (hne : u ≠ a) : ∃ part ∈ s.splitOn a, u ∈ part := by
  induction s using split_induction (a := a) with
  | last s ha =>
      rw [List.splitOn_eq_singleton ha]
      exact ⟨s, List.mem_singleton_self s, hu⟩
  | cons front rest hfront ih =>
      rw [List.splitOn_append_cons_self_of_not_mem hfront]
      rw [List.mem_append, List.mem_cons] at hu
      rcases hu with hu | rfl | hu
      · exact ⟨front, List.mem_cons_self, hu⟩
      · exact absurd rfl hne
      · obtain ⟨part, hpart, hu⟩ := ih hu
        exact ⟨part, List.mem_cons_of_mem front hpart, hu⟩

end Split

end JsString
