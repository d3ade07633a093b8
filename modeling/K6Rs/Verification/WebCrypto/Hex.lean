import K6Rs.Library.Except
import K6Rs.Model.WebCrypto

/-! # Hexadecimal text in and out

The decoder slices its text by pairs of bytes, and reads a pair that is no number as 0. -/

namespace K6Rs

/-! ## Encoding -/

theorem hexEncode_eq (bytes : List UInt8) :
    hexEncode bytes = (bytes.map UInt8.toNat).flatMap Hex.pair := by
  rw [hexEncode, List.flatMap_map]
  congr 1
  funext b
  exact Hex.leftpad_toDigits b.toNat_lt

theorem wellFormed_hexEncode (bytes : List UInt8) : Hex.WellFormed (hexEncode bytes) := by
  rw [hexEncode_eq]
  exact Hex.wellFormed_flatMap_pair _

theorem bytes_hexEncode (bytes : List UInt8) : Hex.bytes (hexEncode bytes) = bytes := by
  rw [hexEncode_eq, Hex.bytes_flatMap_pair, List.map_map]
  have hbytes : UInt8.ofNat ∘ UInt8.toNat = id := funext fun b => UInt8.ofNat_toNat
  rw [hbytes, List.map_id]

/-! ## Decoding -/

theorem hexDecodeAt_cons_cons {c d : Char} (hc : c.utf8Size = 1) (hd : d.utf8Size = 1) (s : Str) :
    hexDecodeAt (c :: d :: s) ∘ (2 + ·) = hexDecodeAt s := by
  funext i
  have hslice : Str.byteSlice (c :: d :: s) (2 + i) (2 + i + 2) = Str.byteSlice s i (i + 2) := by
    rw [Nat.add_comm 2 i, show i + 2 + 2 = i + 2 + 1 + 1 from rfl, Str.byteSlice_cons_succ hc,
      Str.byteSlice_cons_succ hd]
  rw [Function.comp_apply, hexDecodeAt, hexDecodeAt, hslice]

/-- Two characters of one byte each are one step of the decoder. -/
theorem hexDecode_cons_cons {c d : Char} (hc : c.utf8Size = 1) (hd : d.utf8Size = 1) (s : Str) :
    hexDecode (c :: d :: s) = (hexDecode s).map ((u8FromStrRadix16 [c, d]).getD 0 :: ·) := by
  have hsteps : (Str.utf8Len (c :: d :: s) + 1) / 2 = (Str.utf8Len s + 1) / 2 + 1 := by
    rw [Str.utf8Len, Str.utf8Len, hc, hd]
    omega
  have hfirst : hexDecodeAt (c :: d :: s) 0 = .ok ((u8FromStrRadix16 [c, d]).getD 0) := by
    rw [hexDecodeAt, Str.byteSlice_pair hc hd]
  have hrest : (List.range' 2 ((Str.utf8Len s + 1) / 2) 2).mapM (hexDecodeAt (c :: d :: s)) =
      hexDecode s := by
    rw [← Nat.add_zero 2, ← List.map_add_range', List.mapM_map, hexDecodeAt_cons_cons hc hd]
    rfl
  rw [hexDecode, hsteps, List.range'_succ, List.mapM_cons, hfirst, Nat.zero_add, hrest]
  rfl

theorem hexDecode_single {c : Char} (hc : c.utf8Size = 1) : hexDecode [c] = .error .panic := by
  rw [hexDecode, Str.utf8Len, Str.utf8Len, hc]
  rw [List.range'_succ, List.mapM_cons, hexDecodeAt, Str.byteSlice_single hc]
  rfl

/-- A text of one-byte characters is a panic exactly when their number is odd. -/
theorem hexDecode_eq_panic_iff {s : Str} (h : Str.IsAscii s) :
    hexDecode s = .error .panic ↔ Odd s.length := by
  fun_induction Hex.bytes s with
  | case1 =>
      rw [show hexDecode [] = .ok [] from rfl]
      simp
  | case2 c =>
      rw [hexDecode_single (h c (by simp))]
      simp
  | case3 c d s ih =>
      have hs : Str.IsAscii s :=
        fun e he => h e (List.mem_cons_of_mem c (List.mem_cons_of_mem d he))
      have hodd : Odd (c :: d :: s).length ↔ Odd s.length := by simp [Nat.odd_add_one]
      rw [hexDecode_cons_cons (h c (by simp)) (h d (by simp)), hodd, ← ih hs]
      cases hexDecode s with
      | error e => simp [Except.map]
      | ok bytes => simp [Except.map]

theorem u8FromStrRadix16_pair {c d : Char} {m n : ℕ} (hc : Hex.digitValue c = some m)
    (hd : Hex.digitValue d = some n) : u8FromStrRadix16 [c, d] = some (.ofNat (16 * m + n)) := by
  have hm := (Hex.of_digitValue hc).2
  have hn := (Hex.of_digitValue hd).2
  have hplus : c ≠ '+' := by
    rintro rfl
    nomatch hc
  have hdigits : u8FromStrRadix16 [c, d] = ([c, d].foldlM (fun value c => do
      let value := 16 * value + (← Hex.digitValue c)
      if value < 256 then some value else none) 0).map UInt8.ofNat := by
    simp [u8FromStrRadix16, hplus]
  rw [hdigits]
  simp [hc, hd, show m < 256 by omega, show 16 * m + n < 256 by omega]

/-- Pairs of digits are decoded to what they denote. -/
theorem hexDecode_of_wellFormed {s : Str} (h : Hex.WellFormed s) :
    hexDecode s = .ok (Hex.bytes s) := by
  fun_induction Hex.bytes s with
  | case1 => rfl
  | case2 c => exact absurd h (Hex.not_wellFormed_single c)
  | case3 c d s ih =>
      obtain ⟨hc, hd, hs⟩ := Hex.wellFormed_cons_cons.mp h
      obtain ⟨m, hm⟩ := Option.isSome_iff_exists.mp hc
      obtain ⟨n, hn⟩ := Option.isSome_iff_exists.mp hd
      rw [hexDecode_cons_cons (Hex.of_digitValue hm).1 (Hex.of_digitValue hn).1, ih hs,
        u8FromStrRadix16_pair hm hn, hm, hn]
      rfl

/-- The decoder has no error but the panic. -/
theorem eq_panic_of_hexDecode {s : Str} {e : WcError} (h : hexDecode s = .error e) :
    e = .panic := by
  obtain ⟨i, -, hi⟩ := Except.exists_of_mapM_eq_error h
  unfold hexDecodeAt at hi
  split at hi
  · nomatch hi
  · cases hi
    rfl

/-! ## Reading -/

/-- The decoder reads a text: it returns, and bytes only for the text that denotes them. -/
structure ReadsHex (s : Str) : Prop where
  returns : hexDecode s ≠ .error .panic
  wellFormed : ∀ bytes, hexDecode s = .ok bytes → Hex.WellFormed s ∧ bytes = Hex.bytes s
  reported : ¬Hex.WellFormed s → ∃ message, hexDecode s = .error (.fails message)

/-- The decoder reads exactly the texts of pairs of digits, those of the encoder among them. -/
theorem readsHex_iff_wellFormed (s : Str) (b : List UInt8) :
    (ReadsHex s ↔ Hex.WellFormed s) ∧ hexDecode (hexEncode b) = .ok b := by
  refine ⟨⟨?_, ?_⟩, ?_⟩
  · intro h
    cases hdecode : hexDecode s with
    | ok bytes => exact (h.wellFormed bytes hdecode).1
    | error e =>
        rw [eq_panic_of_hexDecode hdecode] at hdecode
        exact absurd hdecode h.returns
  · intro h
    have hdecode := hexDecode_of_wellFormed h
    refine ⟨?_, ?_, fun hnot => absurd h hnot⟩
    · rw [hdecode]
      nofun
    · intro bytes hbytes
      cases hdecode.symm.trans hbytes
      exact ⟨h, rfl⟩
  · rw [hexDecode_of_wellFormed (wellFormed_hexEncode b), bytes_hexEncode]

/-- One digit is a panic, and two letters that are no digits are the byte 0. -/
theorem not_readsHex_malformed :
    ¬((∀ s, ReadsHex s) ∧ ∀ bytes, hexDecode (hexEncode bytes) = .ok bytes) ∧
      hexDecode ['f'] = .error .panic ∧ hexDecode ['z', 'z'] = .ok [0] := by
  refine ⟨fun h => ?_, by rfl, by rfl⟩
  exact (h.1 ['f']).returns rfl

end K6Rs
