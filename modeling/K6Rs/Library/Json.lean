import K6Rs.Library.Text
import Mathlib.Data.Nat.Basic

/-! JSON values, with the accessors of a typed reader. -/

/-- A number as a reader keeps it: an integer that fits 64 bits, or a float. -/
inductive JsonNumber where
  | posInt (n : ℕ)
  /-- The number `-(n + 1)`. -/
  | negInt (n : ℕ)
  | float (bits : UInt64)

/-- A JSON value; an object has its members in the order in which it is iterated. -/
inductive Json where
  | null
  | bool (b : Bool)
  | number (n : JsonNumber)
  | string (s : Str)
  | array (items : List Json)
  | object (members : List (Str × Json))

/-- Why a text is no JSON value. -/
structure JsonError where
  isEof : Bool
  text : Str

namespace JsonNumber

def asU64 : JsonNumber → Option ℕ
  | .posInt n => some n
  | _ => none

def asI64 : JsonNumber → Option ℤ
  | .posInt n => if n < 2 ^ 63 then some n else none
  | .negInt n => some (Int.negSucc n)
  | .float _ => none

end JsonNumber

namespace Json

def isNull : Json → Bool
  | .null => true
  | _ => false

def isBoolean : Json → Bool
  | .bool _ => true
  | _ => false

def isString : Json → Bool
  | .string _ => true
  | _ => false

def isObject : Json → Bool
  | .object _ => true
  | _ => false

def asBool : Json → Option Bool
  | .bool b => some b
  | _ => none

def asStr : Json → Option Str
  | .string s => some s
  | _ => none

def asU64 : Json → Option ℕ
  | .number n => n.asU64
  | _ => none

def asI64 : Json → Option ℤ
  | .number n => n.asI64
  | _ => none

def asObject : Json → Option (List (Str × Json))
  | .object members => some members
  | _ => none

def asArray : Json → Option (List Json)
  | .array items => some items
  | _ => none

/-- The first member whose key is `name` up to the case of ASCII letters, or `null`. -/
def field (v : Json) (name : Str) : Json :=
  match v with
  | .object members =>
      ((members.find? fun member => Str.eqIgnoreAsciiCase member.1 name).map Prod.snd).getD .null
  | _ => .null

/-- The field `name` of a struct with the given fields. The struct is an object that has each of
its fields at most once, or an array with the fields in their order; `none` stands for neither,
and `some none` for a field that is not there. -/
def structField (v : Json) (fields : List Str) (name : Str) : Option (Option Json) :=
  match v with
  | .object members =>
      if fields.any fun field => 1 < members.countP fun member => member.1 = field then none
      else some ((members.find? fun member => member.1 = name).map Prod.snd)
  | .array items =>
      if items.length ≤ fields.length then some items[fields.idxOf name]? else none
  | _ => none

end Json

/-! ### The compact text of a value -/

namespace JsonText

def hexDigit (n : ℕ) : Char := Nat.digitChar n

/-- A character of a string; quotes, backslashes and control characters are escaped. -/
def escape (c : Char) : Str :=
  if c = '"' then ['\\', '"']
  else if c = '\\' then ['\\', '\\']
  else if c = '\n' then ['\\', 'n']
  else if c = '\r' then ['\\', 'r']
  else if c = '\t' then ['\\', 't']
  else if c.toNat = 8 then ['\\', 'b']
  else if c.toNat = 12 then ['\\', 'f']
  else if c.toNat < 32 then ['\\', 'u', '0', '0', hexDigit (c.toNat / 16), hexDigit (c.toNat % 16)]
  else [c]

def string (s : Str) : Str := '"' :: (s.flatMap escape ++ ['"'])

/-- A number; `floatText` is the text of a finite float. -/
def number (floatText : UInt64 → Str) : JsonNumber → Str
  | .posInt n => Nat.toDigits 10 n
  | .negInt n => '-' :: Nat.toDigits 10 (n + 1)
  | .float bits => floatText bits

def literal (s : String) : Str := s.toList

variable (floatText : UInt64 → Str)

mutual

def value : Json → Str
  | .null => literal "null"
  | .bool b => literal (if b then "true" else "false")
  | .number n => number floatText n
  | .string s => string s
  | .array items => '[' :: (arrayItems items ++ [']'])
  | .object members => '{' :: (objectMembers members ++ ['}'])

def arrayItems : List Json → Str
  | [] => []
  | [v] => value v
  | v :: w :: vs => value v ++ ',' :: arrayItems (w :: vs)

def objectMembers : List (Str × Json) → Str
  | [] => []
  | [(k, v)] => string k ++ ':' :: value v
  | (k, v) :: m :: ms => string k ++ ':' :: (value v ++ ',' :: objectMembers (m :: ms))

end

/-! A text without control characters. -/

/-- No control character stands in the text. -/
def Printable (s : Str) : Prop := ∀ c ∈ s, 32 ≤ c.toNat

theorem printable_append {s t : Str} (hs : Printable s) (ht : Printable t) : Printable (s ++ t) :=
  fun c hc => (List.mem_append.mp hc).elim (hs c) (ht c)

theorem printable_cons {c : Char} {s : Str} (hc : 32 ≤ c.toNat) (hs : Printable s) :
    Printable (c :: s) := by
  intro d hd
  rcases List.mem_cons.mp hd with rfl | hd
  · exact hc
  · exact hs d hd

theorem printable_nil : Printable [] := nofun

theorem printable_of_all {s : Str} (h : (s.all fun c => 32 ≤ c.toNat) = true) : Printable s :=
  fun c hc => of_decide_eq_true (List.all_eq_true.mp h c hc)

theorem hexDigit_printable {n : ℕ} (h : n < 16) : 32 ≤ (hexDigit n).toNat := by
  revert h
  revert n
  decide

theorem escape_printable (c : Char) : Printable (escape c) := by
  rw [escape]
  repeat' split
  all_goals try exact printable_of_all (by decide)
  · rename_i hcontrol
    have hhigh := hexDigit_printable (n := c.toNat / 16) (by omega)
    have hlow := hexDigit_printable (n := c.toNat % 16) (by omega)
    have hfront : Printable ['\\', 'u', '0', '0'] := printable_of_all (by decide)
    exact printable_append hfront (printable_cons hhigh (printable_cons hlow printable_nil))
  · rename_i hprintable
    exact printable_cons (by omega) printable_nil

theorem string_printable (s : Str) : Printable (string s) := by
  refine printable_cons (by decide) (printable_append ?_ (printable_cons (by decide) printable_nil))
  intro c hc
  obtain ⟨d, _, hd⟩ := List.mem_flatMap.mp hc
  exact escape_printable d c hd

theorem digits_printable (n : ℕ) : Printable (Nat.toDigits 10 n) := by
  intro c hc
  have hdigit := Nat.isDigit_of_mem_toDigits (by decide) (by decide) hc
  have hle : (48 : UInt32) ≤ c.val := by
    simp only [Char.isDigit, Bool.and_eq_true, decide_eq_true_eq] at hdigit
    exact hdigit.1
  have : 48 ≤ c.toNat := hle
  omega

variable {floatText}

theorem number_printable (hfloat : ∀ bits, Printable (floatText bits)) (n : JsonNumber) :
    Printable (number floatText n) := by
  cases n with
  | posInt n => exact digits_printable n
  | negInt n => exact printable_cons (by decide) (digits_printable (n + 1))
  | float bits => exact hfloat bits

mutual

/-- A value is printed without control characters, and so on one line. -/
theorem value_printable (hfloat : ∀ bits, Printable (floatText bits)) (v : Json) :
    Printable (value floatText v) := by
  cases v with
  | null =>
      rw [value]
      exact printable_of_all (by decide)
  | bool b =>
      rw [value]
      cases b <;> exact printable_of_all (by decide)
  | number n =>
      rw [value]
      exact number_printable hfloat n
  | string s =>
      rw [value]
      exact string_printable s
  | array items =>
      rw [value]
      exact printable_cons (by decide)
        (printable_append (arrayItems_printable hfloat items)
          (printable_cons (by decide) printable_nil))
  | object members =>
      rw [value]
      exact printable_cons (by decide)
        (printable_append (objectMembers_printable hfloat members)
          (printable_cons (by decide) printable_nil))

theorem arrayItems_printable (hfloat : ∀ bits, Printable (floatText bits)) (items : List Json) :
    Printable (arrayItems floatText items) := by
  match items with
  | [] => exact printable_nil
  | [v] =>
      rw [arrayItems]
      exact value_printable hfloat v
  | v :: w :: vs =>
      rw [arrayItems]
      exact printable_append (value_printable hfloat v)
        (printable_cons (by decide) (arrayItems_printable hfloat (w :: vs)))

theorem objectMembers_printable (hfloat : ∀ bits, Printable (floatText bits))
    (members : List (Str × Json)) : Printable (objectMembers floatText members) := by
  match members with
  | [] => exact printable_nil
  | [(k, v)] =>
      rw [objectMembers]
      exact printable_append (string_printable k)
        (printable_cons (by decide) (value_printable hfloat v))
  | (k, v) :: m :: ms =>
      rw [objectMembers]
      exact printable_append (string_printable k) (printable_cons (by decide)
        (printable_append (value_printable hfloat v)
          (printable_cons (by decide) (objectMembers_printable hfloat (m :: ms)))))

end

end JsonText
