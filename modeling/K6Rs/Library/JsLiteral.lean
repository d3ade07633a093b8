import K6Rs.Library.Escape
import K6Rs.Library.Hex
import K6Rs.Library.JsString

/-! Single-quoted string literals of JavaScript, as the strict mode reads them, and the escape with
a backslash before each quote and each backslash that puts a text into one. -/

namespace JsLiteral

open JsString

/-! ## Reading a literal -/

/-- The number that hexadecimal digits write. -/
def hexNumber (digits : Str) : Option ℕ :=
  if digits = [] then none
  else digits.foldlM (fun n c => (Hex.digitValue c).map fun d => 16 * n + d) 0

/-- The digits of an `x` escape, and the text after them. -/
def hexEscape (s : Str) : Option (JsString × Str) :=
  if s.length < 2 then none else (hexNumber (s.take 2)).map fun n => ([.ofNat n], s.drop 2)

/-- The digits of a `u` escape, and the text after them. -/
def unicodeEscape (s : Str) : Option (JsString × Str) :=
  match s with
  | '{' :: t =>
      let digits := t.takeWhile (· ≠ '}')
      match t.drop digits.length, hexNumber digits with
      | _ :: rest, some n => if n ≤ 0x10FFFF then some (codeUnits n, rest) else none
      | _, _ => none
  | _ => if s.length < 4 then none else (hexNumber (s.take 4)).map fun n => ([.ofNat n], s.drop 4)

/-- The characters with a meaning of their own behind a backslash. -/
def singleEscape : Char → Option UInt16
  | 'b' => some 8
  | 't' => some 9
  | 'n' => some 10
  | 'v' => some 11
  | 'f' => some 12
  | 'r' => some 13
  | _ => none

/-- The end of a line, behind a backslash, is left out. -/
def isLineContinuation (c : Char) : Bool := c == '\n' || c == '\u2028' || c == '\u2029'

/-- What stands behind a backslash, and the text after it. -/
def escapeSequence : Str → Option (JsString × Str)
  | [] => none
  | c :: s =>
      if c = 'x' then hexEscape s
      else if c = 'u' then unicodeEscape s
      else if c = '0' then if s.head?.any Char.isDigit then none else some ([0], s)
      else if c.isDigit then none
      else if c = '\r' then some ([], if s.head? = some '\n' then s.tail else s)
      else if isLineContinuation c then some ([], s)
      else some ((singleEscape c).elim (codeUnits c.toNat) ([·]), s)

theorem length_hexEscape {s rest : Str} {u : JsString} (h : hexEscape s = some (u, rest)) :
    rest.length ≤ s.length := by
  rw [hexEscape, Option.ite_none_left_eq_some, Option.map_eq_some_iff] at h
  obtain ⟨-, n, -, heq⟩ := h
  cases heq
  rw [List.length_drop]
  omega

theorem length_unicodeEscape {s rest : Str} {u : JsString} (h : unicodeEscape s = some (u, rest)) :
    rest.length ≤ s.length := by
  unfold unicodeEscape at h
  split at h
  · rename_i t
    simp only at h
    split at h
    · rename_i d rest' n hdrop hn
      rw [Option.ite_none_right_eq_some] at h
      cases h.2
      have hlen := congrArg List.length hdrop
      rw [List.length_drop, List.length_cons] at hlen
      rw [List.length_cons]
      omega
    · cases h
  · rw [Option.ite_none_left_eq_some, Option.map_eq_some_iff] at h
    obtain ⟨-, n, -, heq⟩ := h
    cases heq
    rw [List.length_drop]
    omega

theorem length_escapeSequence {s rest : Str} {u : JsString}
    (h : escapeSequence s = some (u, rest)) :
    rest.length < s.length := by
  cases s with
  | nil => cases h
  | cons c s =>
      rw [List.length_cons, Nat.lt_succ_iff]
      rw [escapeSequence] at h
      split at h
      · exact length_hexEscape h
      split at h
      · exact length_unicodeEscape h
      split at h
      · rw [Option.ite_none_left_eq_some] at h
        cases h.2
        exact le_rfl
      split at h
      · cases h
      split at h
      · cases h
        split
        · rw [List.length_tail]
          omega
        · exact le_rfl
      split at h
      · cases h
        exact le_rfl
      · cases h
        exact le_rfl

/-- The string up to the closing quote, and the text behind it. -/
def lexSingle : Str → Option (JsString × Str)
  | [] => none
  | c :: s =>
      if c = '\'' then some ([], s)
      else if c = '\\' then
        match _h : escapeSequence s with
        | none => none
        | some (u, rest) => (lexSingle rest).map fun (v, after) => (u ++ v, after)
      else if c = '\n' ∨ c = '\r' then none
      else (lexSingle s).map fun (v, after) => (codeUnits c.toNat ++ v, after)
termination_by s => s.length
decreasing_by
  · have := length_escapeSequence _h
    simp only [List.length_cons]
    omega
  · simp

/-! ## Texts in literals -/

theorem lexSingle_close (rest : Str) : lexSingle ('\'' :: rest) = some ([], rest) := by
  rw [lexSingle, if_pos rfl]

theorem lexSingle_escape {s rest : Str} {u : JsString} (h : escapeSequence s = some (u, rest)) :
    lexSingle ('\\' :: s) = (lexSingle rest).map fun (v, after) => (u ++ v, after) := by
  rw [lexSingle, if_neg (by decide), if_pos rfl]
  split
  · rename_i hnone
    rw [h] at hnone
    cases hnone
  · rename_i u' rest' hsome
    rw [h] at hsome
    cases hsome
    rfl

theorem lexSingle_plain {c : Char} (hquote : c ≠ '\'') (hescape : c ≠ '\\')
    (hline : ¬(c = '\n' ∨ c = '\r'))
    (s : Str) : lexSingle (c :: s) = (lexSingle s).map fun (v, after) =>
    (codeUnits c.toNat ++ v, after) := by
  rw [lexSingle, if_neg hquote, if_neg hescape, if_neg hline]

/-- Behind a backslash a quote and a backslash stand for themselves. -/
theorem escapeSequence_special : ∀ c ∈ ['\'', '\\'], ∀ s,
    escapeSequence (c :: s) = some (codeUnits c.toNat, s) := by
  intro c hc s
  rcases List.mem_cons.mp hc with rfl | hc
  · rfl
  · rw [List.mem_singleton.mp hc]
    rfl

/-- The escaped text and a quote are one literal, which reads as the text, whatever stands
behind. -/
theorem lexSingle_escape_append {s : Str} (hline : ∀ c ∈ s, ¬(c = '\n' ∨ c = '\r')) (rest : Str) :
    lexSingle (Escape.escape '\\' ['\'', '\\'] s ++ '\'' :: rest) = some (ofStr s, rest) := by
  induction s with
  | nil => exact lexSingle_close rest
  | cons c s ih =>
      rw [List.forall_mem_cons] at hline
      rw [Escape.escape_cons, List.append_assoc]
      have hcons : ofStr (c :: s) = codeUnits c.toNat ++ ofStr s := List.flatMap_cons
      by_cases hspecial : c ∈ ['\'', '\\']
      · rw [if_pos hspecial, List.cons_append, List.singleton_append,
          lexSingle_escape (escapeSequence_special c hspecial _), ih hline.2, hcons]
        rfl
      · have hquote : c ≠ '\'' := fun h => hspecial (h ▸ List.mem_cons_self)
        have hescape : c ≠ '\\' :=
          fun h => hspecial (h ▸ List.mem_cons_of_mem _ (List.mem_singleton_self _))
        rw [if_neg hspecial, List.singleton_append, lexSingle_plain hquote hescape hline.1,
          ih hline.2, hcons]
        rfl

end JsLiteral
