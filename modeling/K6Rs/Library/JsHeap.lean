import K6Rs.Library.Text
import Mathlib.Data.List.Sort
import Mathlib.Logic.Function.Basic

/-! Objects of a JavaScript engine: properties with their attributes, prototypes, and how
strict code reads, writes and enumerates them. Prototype chains have no cycles, so that the
number of objects bounds their length. -/

namespace Js

inductive Val where
  | undefined
  | null
  | str (s : Str)
  | ref (r : ℕ)
  deriving DecidableEq

/-- Whether a value counts as true. -/
def Val.truthy : Val → Bool
  | .undefined => false
  | .null => false
  | .str s => !s.isEmpty
  | .ref _ => true

/-- The value in a string; an object is taken for one without a text of its own. -/
def Val.text : Val → Str
  | .undefined => "undefined".toList
  | .null => "null".toList
  | .str s => s
  | .ref _ => "[object Object]".toList

inductive Slot where
  | data (value : Val) (enumerable writable : Bool)
  /-- The accessor of the prototype, `__proto__`. -/
  | proto
  deriving DecidableEq

def Slot.enumerable : Slot → Bool
  | .data _ enumerable _ => enumerable
  | .proto => false

structure Obj where
  proto : Option ℕ
  props : List (Str × Slot)

/-- The objects by their number; those from `size` on are not there yet. -/
structure Heap where
  obj : ℕ → Obj
  size : ℕ

namespace Obj

def own (o : Obj) (k : Str) : Option Slot := o.props.lookup k

def define (o : Obj) (k : Str) (slot : Slot) : Obj :=
  if (o.own k).isSome then
    { o with props := o.props.map fun p => if p.1 = k then (k, slot) else p }
  else { o with props := o.props ++ [(k, slot)] }

/-- The key is an array index. -/
def isIndex (k : Str) : Bool :=
  !k.isEmpty && k.all Char.isDigit && (k = ['0'] || k.head? ≠ some '0') &&
    k.foldl (fun n c => 10 * n + (c.toNat - '0'.toNat)) 0 < 2 ^ 32 - 1

/-- The keys in the order of enumeration: first the array indices. A smaller index is
shorter, or comes first among those of its length. -/
def keys (o : Obj) : List Str :=
  let names := o.props.map Prod.fst
  (names.filter isIndex).mergeSort
    (fun a b => a.length < b.length || a.length = b.length && a ≤ b) ++
    names.filter fun k => !isIndex k

def enumerates (o : Obj) (k : Str) : Bool := (o.own k).any Slot.enumerable

end Obj

namespace Heap

/-- The object and its prototypes, at most `n`. -/
def chain (h : Heap) : ℕ → ℕ → List ℕ
  | 0, _ => []
  | n + 1, r => r :: (((h.obj r).proto.map (h.chain n)).getD [])

/-- The object of the chain that has the property, and the property. -/
def find (h : Heap) (r : ℕ) (k : Str) : Option (ℕ × Slot) :=
  (h.chain h.size r).findSome? fun p => ((h.obj p).own k).map (p, ·)

def get (h : Heap) (r : ℕ) (k : Str) : Val :=
  match h.find r k with
  | none => .undefined
  | some (_, .data v _ _) => v
  | some (_, .proto) => ((h.obj r).proto.map Val.ref).getD .null

def setObj (h : Heap) (r : ℕ) (o : Obj) : Heap := { h with obj := Function.update h.obj r o }

def define (h : Heap) (r : ℕ) (k : Str) (slot : Slot) : Heap :=
  h.setObj r ((h.obj r).define k slot)

/-- `o[k] = v`; there is no result where it throws. -/
def put (h : Heap) (r : ℕ) (k : Str) (v : Val) : Option Heap :=
  match h.find r k with
  | none => some (h.define r k (.data v true true))
  | some (p, .data _ enumerable writable) =>
      if writable then some (h.define r k (.data v (p ≠ r || enumerable) true)) else none
  | some (_, .proto) =>
      match v with
      | .ref p =>
          if r ∈ h.chain h.size p then none
          else some (h.setObj r { h.obj r with proto := some p })
      | .null => some (h.setObj r { h.obj r with proto := none })
      | _ => some h

/-- A new object. -/
def alloc (h : Heap) (o : Obj) : ℕ × Heap :=
  (h.size, { obj := Function.update h.obj h.size o, size := h.size + 1 })

/-- The keys of `for (k in o)` along a chain; `seen` are those of the objects before. -/
def chainKeys (h : Heap) : List ℕ → List Str → List Str
  | [], _ => []
  | r :: rest, seen =>
      ((h.obj r).keys.filter fun k => (h.obj r).enumerates k && k ∉ seen) ++
        h.chainKeys rest (seen ++ (h.obj r).props.map Prod.fst)

def forIn (h : Heap) (r : ℕ) : List Str := h.chainKeys (h.chain h.size r) []

end Heap

/-! ## Properties -/

namespace Obj

theorem mem_of_own {o : Obj} {k : Str} {slot : Slot} (h : o.own k = some slot) :
    (k, slot) ∈ o.props := by
  obtain ⟨before, after, heq, -⟩ := List.lookup_eq_some_iff.mp h
  rw [heq]
  simp

theorem enumerates_iff {o : Obj} {k : Str} :
    o.enumerates k = true ↔ ∃ slot, o.own k = some slot ∧ slot.enumerable = true :=
  Option.any_eq_true _ _

theorem mem_props_define {o : Obj} {k : Str} {slot : Slot} {p : Str × Slot}
    (h : p ∈ (o.define k slot).props) : p = (k, slot) ∨ p ∈ o.props := by
  rw [define] at h
  split at h
  · obtain ⟨q, hq, rfl⟩ := List.mem_map.mp h
    split
    · exact .inl rfl
    · exact .inr hq
  · rcases List.mem_append.mp h with h | h
    · exact .inr h
    · exact .inl (List.mem_singleton.mp h)

theorem proto_define (o : Obj) (k : Str) (slot : Slot) : (o.define k slot).proto = o.proto := by
  rw [define]
  split <;> rfl

end Obj

namespace Heap

variable {h : Heap}

/-! ## Prototype chains -/

theorem mem_chain {n r p : ℕ} (hp : p ∈ h.chain n r) :
    p = r ∨ ∃ m q, (h.obj r).proto = some q ∧ p ∈ h.chain m q := by
  cases n with
  | zero => cases hp
  | succ n =>
      rcases List.mem_cons.mp hp with rfl | hp
      · exact .inl rfl
      · cases hproto : (h.obj r).proto with
        | none => simp [hproto] at hp
        | some q => exact .inr ⟨n, q, rfl, by simpa [hproto] using hp⟩

/-- What a set of objects that is closed under prototypes has in common. -/
theorem chain_closed {P : ℕ → Prop} (hP : ∀ r q, P r → (h.obj r).proto = some q → P q) {n r p : ℕ}
    (hr : P r) (hp : p ∈ h.chain n r) : P p := by
  induction n generalizing r with
  | zero => cases hp
  | succ n ih =>
      rcases List.mem_cons.mp hp with rfl | hp
      · exact hr
      · cases hproto : (h.obj r).proto with
        | none => simp [hproto] at hp
        | some q => exact ih (hP r q hr hproto) (by simpa [hproto] using hp)

theorem chain_size {r : ℕ} (hr : r < h.size) :
    ∃ tail, h.chain h.size r = r :: tail := by
  obtain ⟨n, hn⟩ : ∃ n, h.size = n + 1 := ⟨h.size - 1, by omega⟩
  rw [hn]
  exact ⟨_, rfl⟩

theorem find_eq_some {r p : ℕ} {k : Str} {slot : Slot} (hf : h.find r k = some (p, slot)) :
    p ∈ h.chain h.size r ∧ (h.obj p).own k = some slot := by
  obtain ⟨q, hq, heq⟩ := List.exists_of_findSome?_eq_some hf
  obtain ⟨slot', hown, hpair⟩ := Option.map_eq_some_iff.mp heq
  cases hpair
  exact ⟨hq, hown⟩

theorem find_own {r : ℕ} {k : Str} {slot : Slot} (hr : r < h.size)
    (hown : (h.obj r).own k = some slot) : h.find r k = some (r, slot) := by
  obtain ⟨tail, htail⟩ := chain_size hr
  rw [find, htail, List.findSome?_cons, hown]
  rfl

theorem get_own {r : ℕ} {k : Str} {v : Val} {enumerable writable : Bool} (hr : r < h.size)
    (hown : (h.obj r).own k = some (.data v enumerable writable)) : h.get r k = v := by
  rw [get, find_own hr hown]

/-- An assignment defines the property, unless it meets the accessor. -/
theorem put_eq_some {h' : Heap} {r : ℕ} {k : Str} {v : Val} (hput : h.put r k v = some h') :
    (∃ enumerable, h' = h.define r k (.data v enumerable true)) ∨
      ∃ p, h.find r k = some (p, .proto) := by
  unfold put at hput
  cases hf : h.find r k with
  | none =>
      simp only [hf, Option.some.injEq] at hput
      exact .inl ⟨true, hput.symm⟩
  | some found =>
      obtain ⟨p, slot⟩ := found
      cases slot with
      | data w enumerable writable =>
          simp only [hf] at hput
          split at hput
          · exact .inl ⟨_, (Option.some.inj hput).symm⟩
          · cases hput
      | proto => exact .inr ⟨p, rfl⟩

/-! ## Enumeration -/

theorem mem_chainKeys {l : List ℕ} {seen : List Str} {k : Str} (hk : k ∈ h.chainKeys l seen) :
    ∃ r ∈ l, (h.obj r).enumerates k = true := by
  induction l generalizing seen with
  | nil => cases hk
  | cons r rest ih =>
      rcases List.mem_append.mp hk with hk | hk
      · have henum := (List.mem_filter.mp hk).2
        simp only [Bool.and_eq_true] at henum
        exact ⟨r, List.mem_cons_self, henum.1⟩
      · obtain ⟨q, hq, henum⟩ := ih hk
        exact ⟨q, List.mem_cons_of_mem _ hq, henum⟩

theorem mem_forIn {r : ℕ} {k : Str} (hk : k ∈ h.forIn r) :
    ∃ p ∈ h.chain h.size r, (h.obj p).enumerates k = true := mem_chainKeys hk

end Heap

end Js
