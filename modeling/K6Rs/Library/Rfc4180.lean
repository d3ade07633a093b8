import Mathlib.Data.List.Forall2
import K6Rs.Library.Escape
import K6Rs.Library.Text

/-! Comma-separated records: a field is plain, or stands between quotes with every quote of its own
doubled. -/

namespace Rfc4180

/-- The characters that a plain field may not have. -/
def special : List Char := [',', '"', '\n', '\r']

/-- The text is one of the field. -/
inductive Encodes : Str → Str → Prop where
  | plain {s : Str} (h : ∀ c ∈ s, c ∉ special) : Encodes s s
  | quoted (s : Str) : Encodes ('"' :: (Escape.replace '"' ['"', '"'] s ++ ['"'])) s

/-- Where a reader stands in a field: before it, in a plain one, between quotes, or behind a quote
that may be the last one. -/
inductive FieldState where
  | start
  | plain
  | quoted
  | closed

/-- The fields of the rest of a record, of which `field` is the part of the first that has been
read. -/
def readFields : FieldState → Str → Str → Option (List Str)
  | .quoted, _, [] => none
  | _, field, [] => some [field]
  | .quoted, field, c :: s =>
      if c = '"' then readFields .closed field s else readFields .quoted (field ++ [c]) s
  | .closed, field, c :: s =>
      if c = '"' then readFields .quoted (field ++ ['"']) s
      else if c = ',' then (readFields .start [] s).map (field :: ·)
      else none
  | .start, field, c :: s =>
      if c = '"' then readFields .quoted field s
      else if c = ',' then (readFields .start [] s).map (field :: ·)
      else if c ∈ special then none
      else readFields .plain (field ++ [c]) s
  | .plain, field, c :: s =>
      if c = ',' then (readFields .start [] s).map (field :: ·)
      else if c ∈ special then none
      else readFields .plain (field ++ [c]) s

def readRecord (s : Str) : Option (List Str) := readFields .start [] s

theorem readFields_quoted (field s rest : Str) :
    readFields .quoted field (Escape.replace '"' ['"', '"'] s ++ '"' :: rest) =
    readFields .closed (field ++ s) rest := by
  induction s generalizing field with
  | nil => simp [Escape.replace, readFields]
  | cons c s ih =>
      have hcons : Escape.replace '"' ['"', '"'] (c :: s) =
          (if c = '"' then ['"', '"'] else [c]) ++ Escape.replace '"' ['"', '"'] s := rfl
      rw [hcons, List.append_assoc]
      by_cases hc : c = '"'
      · subst hc
        rw [if_pos rfl, List.cons_append, List.singleton_append, readFields, if_pos rfl,
          readFields, if_pos rfl, ih, List.append_assoc]
        rfl
      · rw [if_neg hc, List.singleton_append, readFields, if_neg hc, ih, List.append_assoc]
        rfl

theorem readFields_plain {s : Str} (hs : ∀ c ∈ s, c ∉ special) (field rest : Str) :
    readFields .plain field (s ++ rest) = readFields .plain (field ++ s) rest := by
  induction s generalizing field with
  | nil => rw [List.nil_append, List.append_nil]
  | cons c s ih =>
      rw [List.forall_mem_cons] at hs
      have hcomma : c ≠ ',' := fun h => hs.1 (by rw [h]; decide)
      rw [List.cons_append, readFields, if_neg hcomma, if_neg hs.1, ih hs.2, List.append_assoc]
      rfl

/-- A field before a comma. -/
theorem readFields_comma {text field : Str} (h : Encodes text field) (rest : Str) :
    readFields .start [] (text ++ ',' :: rest) = (readFields .start [] rest).map (field :: ·) := by
  cases h with
  | plain hs =>
      cases text with
      | nil => rfl
      | cons c s =>
          rw [List.forall_mem_cons] at hs
          have hquote : c ≠ '"' := fun h => hs.1 (by rw [h]; decide)
          have hcomma : c ≠ ',' := fun h => hs.1 (by rw [h]; decide)
          rw [List.cons_append, readFields, if_neg hquote, if_neg hcomma, if_neg hs.1,
            readFields_plain hs.2, readFields, if_pos rfl]
          rfl
  | quoted =>
      rw [List.cons_append, List.append_assoc, List.singleton_append, readFields, if_pos rfl,
        readFields_quoted, readFields, if_neg (by decide), if_pos rfl, List.nil_append]

/-- The last field of a record. -/
theorem readFields_last {text field : Str} (h : Encodes text field) :
    readFields .start [] text = some [field] := by
  cases h with
  | plain hs =>
      cases text with
      | nil => rfl
      | cons c s =>
          rw [List.forall_mem_cons] at hs
          have hquote : c ≠ '"' := fun h => hs.1 (by rw [h]; decide)
          have hcomma : c ≠ ',' := fun h => hs.1 (by rw [h]; decide)
          have hrest := readFields_plain hs.2 [c] []
          rw [List.append_nil] at hrest
          rw [readFields, if_neg hquote, if_neg hcomma, if_neg hs.1, List.nil_append, hrest,
            readFields]
          · rfl
          · nofun
  | quoted =>
      rw [readFields, if_pos rfl, readFields_quoted, List.nil_append, readFields]
      nofun

/-- A record of encoded fields is read as them. -/
theorem readRecord_intercalate {texts fields : List Str} (hne : texts ≠ [])
    (h : List.Forall₂ Encodes texts fields) :
    readRecord ([','].intercalate texts) = some fields := by
  induction h with
  | nil => exact absurd rfl hne
  | @cons text field texts fields hfield hrest ih =>
      cases hrest with
      | nil =>
          rw [readRecord, List.intercalate_singleton]
          exact readFields_last hfield
      | cons hnext hrest =>
          have hread := ih (List.cons_ne_nil _ _)
          rw [readRecord] at hread
          rw [readRecord, List.intercalate_cons_cons, List.append_assoc, List.singleton_append,
            readFields_comma hfield, hread]
          rfl

end Rfc4180
