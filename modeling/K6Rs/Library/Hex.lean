import Mathlib.Tactic.IntervalCases
import K6Rs.Library.Text

/-! Hexadecimal texts: the last two digits of a number, and the bytes that pairs of digits
denote. -/

namespace Hex

variable {n : ℕ} {c d : Char} {s : Str}

/-- The value of a digit, in either letter case. -/
def digitValue (c : Char) : Option ℕ :=
  if '0' ≤ c ∧ c ≤ '9' then some (c.toNat - '0'.toNat)
  else if 'a' ≤ c ∧ c ≤ 'f' then some (c.toNat - 'a'.toNat + 10)
  else if 'A' ≤ c ∧ c ≤ 'F' then some (c.toNat - 'A'.toNat + 10)
  else none

theorem digitValue_digitChar (h : n < 16) : digitValue (Nat.digitChar n) = some n := by
  interval_cases n <;> decide

/-- A digit has one byte and a value below 16. -/
theorem of_digitValue (h : digitValue c = some n) : c.utf8Size = 1 ∧ n < 16 := by
  have hlast : ∀ last : Char, last.toNat < 128 → c ≤ last → c.utf8Size = 1 := by
    intro last hascii hle
    rw [Char.utf8Size_eq_one_iff, UInt32.le_iff_toNat_le]
    have hnat : c.toNat ≤ last.toNat := UInt32.le_iff_toNat_le.mp hle
    exact Nat.le_of_lt_succ (hnat.trans_lt hascii)
  have hnat {first last : Char} (h : first ≤ c ∧ c ≤ last) :
      first.toNat ≤ c.toNat ∧ c.toNat ≤ last.toNat :=
    ⟨UInt32.le_iff_toNat_le.mp h.1, UInt32.le_iff_toNat_le.mp h.2⟩
  unfold digitValue at h
  split at h
  · rename_i hc
    have hbounds := hnat hc
    refine ⟨hlast '9' (by decide) hc.2, ?_⟩
    cases h
    simp at hbounds ⊢
    omega
  · split at h
    · rename_i hc
      have hbounds := hnat hc
      refine ⟨hlast 'f' (by decide) hc.2, ?_⟩
      cases h
      simp at hbounds ⊢
      omega
    · split at h
      · rename_i hc
        have hbounds := hnat hc
        refine ⟨hlast 'F' (by decide) hc.2, ?_⟩
        cases h
        simp at hbounds ⊢
        omega
      · nomatch h

/-- The last two digits of a number. -/
def pair (n : ℕ) : Str := [Nat.digitChar (n / 16 % 16), Nat.digitChar (n % 16)]

/-- The last `n` characters. -/
def takeLast (n : ℕ) (s : Str) : Str := s.drop (s.length - n)

theorem takeLast_append {t : Str} (h : n ≤ t.length) : takeLast n (s ++ t) = takeLast n t := by
  rw [takeLast, takeLast, List.length_append, Nat.add_sub_assoc h, List.drop_length_add_append]

theorem takeLast_toDigits (n : ℕ) : takeLast 2 ('0' :: Nat.toDigits 16 n) = pair n := by
  rcases Nat.lt_or_ge n 16 with hn | hn
  · rw [Nat.toDigits_of_lt_base hn, pair, Nat.div_eq_of_lt hn, Nat.mod_eq_of_lt hn]
    rfl
  · -- all but the last two digits are cut off
    rw [Nat.toDigits_of_base_le (by decide) hn]
    rcases Nat.lt_or_ge (n / 16) 16 with hdiv | hdiv
    · rw [Nat.toDigits_of_lt_base hdiv, pair, Nat.mod_eq_of_lt hdiv]
      rfl
    · rw [Nat.toDigits_of_base_le (by decide) hdiv, List.append_assoc, ← List.cons_append,
        takeLast_append (by simp)]
      rfl

theorem leftpad_toDigits (h : n < 256) : List.leftpad 2 '0' (Nat.toDigits 16 n) = pair n := by
  rcases Nat.lt_or_ge n 16 with hn | hn
  · rw [Nat.toDigits_of_lt_base hn, pair, Nat.div_eq_of_lt hn, Nat.mod_eq_of_lt hn]
    rfl
  · have hdiv : n / 16 < 16 := by omega
    rw [Nat.toDigits_of_base_le (by decide) hn, Nat.toDigits_of_lt_base hdiv, pair,
      Nat.mod_eq_of_lt hdiv]
    rfl

/-- A text of pairs of digits. -/
structure WellFormed (s : Str) : Prop where
  even : Even s.length
  digits : ∀ c ∈ s, (digitValue c).isSome

/-- What pairs of digits denote. -/
def bytes : Str → List UInt8
  | [] => []
  | [_] => []
  | c :: d :: s => .ofNat (16 * (digitValue c).getD 0 + (digitValue d).getD 0) :: bytes s

theorem wellFormed_nil : WellFormed [] := ⟨⟨0, rfl⟩, by simp⟩

theorem wellFormed_cons_cons :
    WellFormed (c :: d :: s) ↔ (digitValue c).isSome ∧ (digitValue d).isSome ∧ WellFormed s := by
  constructor
  · intro h
    refine ⟨h.digits c (by simp), h.digits d (by simp), ?_, fun e he => h.digits e (by simp [he])⟩
    simpa [Nat.even_add_one] using h.even
  · rintro ⟨hc, hd, hs⟩
    refine ⟨by simpa [Nat.even_add_one] using hs.even, ?_⟩
    intro e he
    simp only [List.mem_cons] at he
    rcases he with rfl | rfl | he
    · exact hc
    · exact hd
    · exact hs.digits e he

theorem not_wellFormed_single (c : Char) : ¬WellFormed [c] := fun h => absurd h.even (by simp)

/-- The pairs of a list of numbers. -/
theorem wellFormed_flatMap_pair (ns : List ℕ) : WellFormed (ns.flatMap pair) := by
  induction ns with
  | nil => exact wellFormed_nil
  | cons n ns ih =>
      refine wellFormed_cons_cons.mpr ⟨?_, ?_, ih⟩
      · rw [digitValue_digitChar (Nat.mod_lt _ (by decide))]
        rfl
      · rw [digitValue_digitChar (Nat.mod_lt _ (by decide))]
        rfl

theorem bytes_flatMap_pair (ns : List ℕ) : bytes (ns.flatMap pair) = ns.map UInt8.ofNat := by
  induction ns with
  | nil => rfl
  | cons n ns ih =>
      have hvalue : 16 * (n / 16 % 16) + n % 16 = n % 256 := by omega
      rw [List.flatMap_cons, pair, List.cons_append, List.cons_append, List.nil_append, bytes, ih,
        digitValue_digitChar (Nat.mod_lt _ (by decide)),
        digitValue_digitChar (Nat.mod_lt _ (by decide)), List.map_cons, Option.getD_some,
        Option.getD_some, hvalue, UInt8.ofNat_mod_size]

end Hex
