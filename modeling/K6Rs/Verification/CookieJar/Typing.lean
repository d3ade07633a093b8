import K6Rs.Model.CookieJar

/-! # The objects of the cookie jar

The objects of the heap are typed: the jar has a cell for each domain, a cell has the cookies
that responses of its domain stored, and nothing enumerable is inherited. The typing is lost
only where a store reaches `Object.prototype` or a prototype by the name `__proto__`. -/

namespace K6Rs

open Js

/-- What an object of the heap is for. -/
inductive Kind where
  /-- It has nothing enumerable, itself or from its prototypes. -/
  | inert
  | jar
  | cell (domain : Str)
  | cookie (domain name value : Str)

namespace CookieJar

variable (realm : Realm) (stored : Str → Str → Str → Prop)

def ownAccessor (p : Str × Slot) : Prop := p.2 = .proto → p.1 = "__proto__".toList

/-- The object is of this kind, where `kind` gives the kinds of the others. -/
def Fits (kind : ℕ → Option Kind) (o : Obj) : Kind → Prop
  | .inert => (∀ p ∈ o.props, p.2.enumerable = false ∧ ownAccessor p) ∧
      ∀ q, o.proto = some q → kind q = some .inert
  | .jar => o.proto = some realm.objectProto ∧
      ∀ p ∈ o.props, ∃ r enumerable writable, p.2 = .data (.ref r) enumerable writable ∧
        kind r = some (.cell p.1)
  | .cell domain => (∃ q, o.proto = some q ∧ kind q = some .inert) ∧
      ∀ p ∈ o.props, ownAccessor p ∧ (p.2.enumerable = true → ∃ c value writable,
        p.2 = .data (.ref c) true writable ∧ kind c = some (.cookie domain p.1 value))
  | .cookie domain name value => o.own "value".toList = some (.data (.str value) true true) ∧
      stored domain name value

/-- The objects of the heap have these kinds. -/
structure Typed (h : Heap) (kind : ℕ → Option Kind) : Prop where
  bounded : ∀ r K, kind r = some K → r < h.size
  fits : ∀ r K, kind r = some K → Fits realm stored kind (h.obj r) K
  jarKind : kind (jar realm) = some .jar
  root : kind realm.objectProto = some .inert
  rootObj : h.obj realm.objectProto = realm.heap.obj realm.objectProto
  methods : ∀ r k, realm.methodName r = some k → kind r = some (.cell k)

variable {realm stored}

theorem Fits.mono {kind kind' : ℕ → Option Kind} (hkind : ∀ r K, kind r = some K → kind' r = some K)
    {o : Obj} {K : Kind} (h : Fits realm stored kind o K) : Fits realm stored kind' o K := by
  cases K with
  | inert => exact ⟨h.1, fun q hq => hkind q _ (h.2 q hq)⟩
  | jar =>
      refine ⟨h.1, fun p hp => ?_⟩
      obtain ⟨r, enumerable, writable, hslot, hr⟩ := h.2 p hp
      exact ⟨r, enumerable, writable, hslot, hkind r _ hr⟩
  | cell domain =>
      obtain ⟨⟨q, hq, hinert⟩, hprops⟩ := h
      refine ⟨⟨q, hq, hkind q _ hinert⟩, fun p hp => ⟨(hprops p hp).1, fun henum => ?_⟩⟩
      obtain ⟨c, value, writable, hslot, hc⟩ := (hprops p hp).2 henum
      exact ⟨c, value, writable, hslot, hkind c _ hc⟩
  | cookie domain name value => exact h

theorem Fits.more {stored' : Str → Str → Str → Prop}
    (hstored : ∀ domain name value, stored domain name value → stored' domain name value)
    {kind : ℕ → Option Kind} {o : Obj} {K : Kind} (h : Fits realm stored kind o K) :
    Fits realm stored' kind o K := by
  cases K with
  | inert => exact h
  | jar => exact h
  | cell domain => exact h
  | cookie domain name value => exact ⟨h.1, hstored _ _ _ h.2⟩

theorem Typed.more {stored' : Str → Str → Str → Prop}
    (hstored : ∀ domain name value, stored domain name value → stored' domain name value)
    {h : Heap} {kind : ℕ → Option Kind} (ht : Typed realm stored h kind) :
    Typed realm stored' h kind :=
  { ht with fits := fun r K hr => (ht.fits r K hr).more hstored }

/-! ## Allocation and assignment -/

theorem Typed.alloc {h : Heap} {kind : ℕ → Option Kind} (ht : Typed realm stored h kind) {o : Obj}
    {K : Kind} (hfits : Fits realm stored kind o K) :
    ∃ kind', (∀ r K, kind r = some K → kind' r = some K) ∧ kind' h.size = some K ∧
      Typed realm stored (h.alloc o).2 kind' := by
  have hold (r : ℕ) (L : Kind) (hr : kind r = some L) : r ≠ h.size := by
    have := ht.bounded r L hr
    omega
  have hkind (r : ℕ) (L : Kind) (hr : kind r = some L) :
      Function.update kind h.size (some K) r = some L := by
    rw [Function.update_of_ne (hold r L hr), hr]
  refine ⟨Function.update kind h.size (some K), hkind, Function.update_self .., ?_⟩
  refine ⟨?_, ?_, hkind _ _ ht.jarKind, hkind _ _ ht.root, ?_, fun r k hr =>
    hkind _ _ (ht.methods r k hr)⟩
  · intro r L hr
    simp only [Heap.alloc]
    by_cases hnew : r = h.size
    · omega
    · rw [Function.update_of_ne hnew] at hr
      have := ht.bounded r L hr
      omega
  · intro r L hr
    by_cases hnew : r = h.size
    · subst hnew
      rw [Function.update_self] at hr
      cases hr
      simp only [Heap.alloc, Function.update_self]
      exact hfits.mono hkind
    · rw [Function.update_of_ne hnew] at hr
      simp only [Heap.alloc, Function.update_of_ne hnew]
      exact (ht.fits r L hr).mono hkind
  · simp only [Heap.alloc]
    rw [Function.update_of_ne (hold _ _ ht.root), ht.rootObj]

theorem Typed.setObj {h : Heap} {kind : ℕ → Option Kind} (ht : Typed realm stored h kind) {r : ℕ}
    {K : Kind} {o : Obj} (hr : kind r = some K) (hroot : r ≠ realm.objectProto)
    (hfits : Fits realm stored kind o K) : Typed realm stored (h.setObj r o) kind := by
  refine ⟨ht.bounded, ?_, ht.jarKind, ht.root, ?_, ht.methods⟩
  · intro q L hq
    by_cases hsame : q = r
    · subst hsame
      rw [hr] at hq
      cases hq
      simpa [Heap.setObj] using hfits
    · simpa [Heap.setObj, Function.update_of_ne hsame] using ht.fits q L hq
  · simp only [Heap.setObj]
    rw [Function.update_of_ne hroot.symm, ht.rootObj]

/-! ## Reading -/

/-- What inert objects inherit is inert. -/
theorem Typed.chain_inert {h : Heap} {kind : ℕ → Option Kind} (ht : Typed realm stored h kind)
    {n r p : ℕ} (hr : kind r = some .inert) (hp : p ∈ h.chain n r) : kind p = some .inert :=
  Heap.chain_closed (P := fun r => kind r = some .inert)
    (fun r q hr hq => (ht.fits r _ hr).2 q hq) hr hp

/-- A property of `Object.prototype`. -/
theorem Typed.own_root {h : Heap} {kind : ℕ → Option Kind} (ht : Typed realm stored h kind)
    {k : Str} {slot : Slot} (hown : (h.obj realm.objectProto).own k = some slot) :
    (slot = .proto ∧ k = "__proto__".toList) ∨
      ∃ r writable, slot = .data (.ref r) false writable ∧ kind r = some (.cell k) := by
  rw [ht.rootObj] at hown
  by_cases hk : k = "__proto__".toList
  · subst hk
    rw [realm.protoAccessor] at hown
    cases hown
    exact .inl ⟨rfl, rfl⟩
  · obtain ⟨r, writable, hslot, hname⟩ := realm.methods _ (Obj.mem_of_own hown) hk
    exact .inr ⟨r, writable, hslot, ht.methods r k hname⟩

/-- What the jar has under a domain. -/
theorem Typed.find_jar {h : Heap} {kind : ℕ → Option Kind} (ht : Typed realm stored h kind)
    {domain : Str} {p : ℕ} {slot : Slot} (hf : h.find (jar realm) domain = some (p, slot)) :
    (slot = .proto ∧ domain = "__proto__".toList) ∨
      ∃ r enumerable writable, slot = .data (.ref r) enumerable writable ∧
        kind r = some (.cell domain) := by
  obtain ⟨hproto, hprops⟩ := ht.fits _ _ ht.jarKind
  obtain ⟨hp, hown⟩ := Heap.find_eq_some hf
  rcases Heap.mem_chain hp with rfl | ⟨m, q, hq, hp⟩
  · exact .inr (hprops _ (Obj.mem_of_own hown))
  · rw [hproto] at hq
    cases hq
    rcases Heap.mem_chain hp with rfl | ⟨-, q, hq, -⟩
    · rcases ht.own_root hown with h | ⟨r, writable, rfl, hr⟩
      · exact .inl h
      · exact .inr ⟨r, false, writable, rfl, hr⟩
    · rw [ht.rootObj, realm.objectRoot] at hq
      cases hq

/-- The jar gives nothing, a cell of the domain, or something with nothing enumerable. -/
theorem Typed.get_jar {h : Heap} {kind : ℕ → Option Kind} (ht : Typed realm stored h kind)
    (domain : Str) :
    h.get (jar realm) domain = .undefined ∨ ∃ r, h.get (jar realm) domain = .ref r ∧
      (kind r = some (.cell domain) ∨ domain = "__proto__".toList ∧ kind r = some .inert) := by
  rw [Heap.get]
  cases hf : h.find (jar realm) domain with
  | none => exact .inl rfl
  | some found =>
      obtain ⟨p, slot⟩ := found
      rcases ht.find_jar hf with ⟨rfl, hdomain⟩ | ⟨r, enumerable, writable, rfl, hr⟩
      · refine .inr ⟨realm.objectProto, ?_, .inr ⟨hdomain, ht.root⟩⟩
        simp [(ht.fits _ _ ht.jarKind).1]
      · exact .inr ⟨r, rfl, .inl hr⟩

/-- What is enumerated of a cell are its cookies. -/
theorem Typed.forIn_cell {h : Heap} {kind : ℕ → Option Kind} (ht : Typed realm stored h kind)
    {r : ℕ} {domain name : Str} (hr : kind r = some (.cell domain)) (hname : name ∈ h.forIn r) :
    ∃ value, cookieValue realm h r name = some (.str value) ∧ stored domain name value := by
  obtain ⟨⟨q, hq, hinert⟩, hprops⟩ := ht.fits r _ hr
  obtain ⟨p, hp, henum⟩ := Heap.mem_forIn hname
  obtain ⟨slot, hown, henum⟩ := Obj.enumerates_iff.mp henum
  rcases Heap.mem_chain hp with rfl | ⟨m, q', hq', hp⟩
  · obtain ⟨c, value, writable, hslot, hc⟩ := (hprops _ (Obj.mem_of_own hown)).2 henum
    simp only at hslot
    subst hslot
    obtain ⟨hvalue, hstored⟩ := ht.fits c _ hc
    refine ⟨value, ?_, hstored⟩
    rw [cookieValue, Heap.get_own (ht.bounded p _ hr) hown]
    simp only [Heap.get_own (ht.bounded c _ hc) hvalue]
  · rw [hq] at hq'
    cases hq'
    have hnone := ((ht.fits p _ (ht.chain_inert hinert hp)).1 _ (Obj.mem_of_own hown)).1
    rw [henum] at hnone
    cases hnone

theorem Typed.forIn_inert {h : Heap} {kind : ℕ → Option Kind} (ht : Typed realm stored h kind)
    {r : ℕ} (hr : kind r = some .inert) (name : Str) : name ∉ h.forIn r := by
  intro hname
  obtain ⟨p, hp, henum⟩ := Heap.mem_forIn hname
  obtain ⟨slot, hown, henum⟩ := Obj.enumerates_iff.mp henum
  have hnone := ((ht.fits p _ (ht.chain_inert hr hp)).1 _ (Obj.mem_of_own hown)).1
  rw [henum] at hnone
  cases hnone

/-! ## Storing a cookie -/

theorem Typed.ne_root {h : Heap} {kind : ℕ → Option Kind} (ht : Typed realm stored h kind) {r : ℕ}
    {K : Kind} (hr : kind r = some K) (hK : K ≠ .inert) : r ≠ realm.objectProto := by
  rintro rfl
  rw [ht.root] at hr
  exact hK (Option.some.inj hr).symm

/-- The accessor is found under its own name only. -/
theorem Typed.find_cell {h : Heap} {kind : ℕ → Option Kind} (ht : Typed realm stored h kind)
    {r p : ℕ} {domain name : Str} (hr : kind r = some (.cell domain))
    (hf : h.find r name = some (p, .proto)) : name = "__proto__".toList := by
  obtain ⟨⟨q, hq, hinert⟩, hprops⟩ := ht.fits r _ hr
  obtain ⟨hp, hown⟩ := Heap.find_eq_some hf
  rcases Heap.mem_chain hp with rfl | ⟨m, q', hq', hp⟩
  · exact (hprops _ (Obj.mem_of_own hown)).1 rfl
  · rw [hq] at hq'
    cases hq'
    exact ((ht.fits p _ (ht.chain_inert hinert hp)).1 _ (Obj.mem_of_own hown)).2 rfl

theorem Typed.define_cell {h : Heap} {kind : ℕ → Option Kind} (ht : Typed realm stored h kind)
    {r c : ℕ} {domain name value : Str} (hr : kind r = some (.cell domain))
    (hc : kind c = some (.cookie domain name value)) (enumerable : Bool) :
    Typed realm stored (h.define r name (.data (.ref c) enumerable true)) kind := by
  obtain ⟨⟨q, hq, hinert⟩, hprops⟩ := ht.fits r _ hr
  refine ht.setObj hr (ht.ne_root hr nofun) ⟨⟨q, ?_, hinert⟩, fun p hp => ?_⟩
  · rw [Obj.proto_define, hq]
  · rcases Obj.mem_props_define hp with rfl | hp
    · refine ⟨nofun, fun henum => ⟨c, value, true, ?_, hc⟩⟩
      rw [show enumerable = true from henum]
    · exact hprops p hp

theorem Typed.put_cell {h h' : Heap} {kind : ℕ → Option Kind} (ht : Typed realm stored h kind)
    {r c : ℕ} {domain name value : Str} (hr : kind r = some (.cell domain))
    (hc : kind c = some (.cookie domain name value)) (hname : name ≠ "__proto__".toList)
    (hput : h.put r name (.ref c) = some h') : Typed realm stored h' kind := by
  rcases Heap.put_eq_some hput with ⟨enumerable, rfl⟩ | ⟨p, hf⟩
  · exact ht.define_cell hr hc enumerable
  · exact absurd (ht.find_cell hr hf) hname

theorem Typed.define_jar {h : Heap} {kind : ℕ → Option Kind} (ht : Typed realm stored h kind)
    {r : ℕ} {domain : Str} (hr : kind r = some (.cell domain)) (enumerable : Bool) :
    Typed realm stored (h.define (jar realm) domain (.data (.ref r) enumerable true)) kind := by
  obtain ⟨hproto, hprops⟩ := ht.fits _ _ ht.jarKind
  refine ht.setObj ht.jarKind (ht.ne_root ht.jarKind nofun) ⟨?_, fun p hp => ?_⟩
  · rw [Obj.proto_define, hproto]
  · rcases Obj.mem_props_define hp with rfl | hp
    · exact ⟨r, enumerable, true, rfl, hr⟩
    · exact hprops p hp

theorem Typed.put_jar {h h' : Heap} {kind : ℕ → Option Kind} (ht : Typed realm stored h kind)
    {r : ℕ} {domain : Str} (hr : kind r = some (.cell domain))
    (hdomain : domain ≠ "__proto__".toList)
    (hput : h.put (jar realm) domain (.ref r) = some h') : Typed realm stored h' kind := by
  rcases Heap.put_eq_some hput with ⟨enumerable, rfl⟩ | ⟨p, hf⟩
  · exact ht.define_jar hr enumerable
  · rcases ht.find_jar hf with ⟨-, hproto⟩ | ⟨_, _, _, hslot, -⟩
    · exact absurd hproto hdomain
    · cases hslot

theorem Typed.ensureDomain {h h' : Heap} {kind : ℕ → Option Kind} (ht : Typed realm stored h kind)
    {domain : Str} (hdomain : domain ≠ "__proto__".toList)
    (hensure : CookieJar.ensureDomain realm h domain = some h') :
    ∃ kind', Typed realm stored h' kind' := by
  rw [CookieJar.ensureDomain] at hensure
  split at hensure
  · cases hensure
    exact ⟨kind, ht⟩
  · have hfits : Fits realm stored kind (plain realm []) (.cell domain) :=
      ⟨⟨realm.objectProto, rfl, ht.root⟩, nofun⟩
    obtain ⟨kind', -, hnew, ht'⟩ := ht.alloc hfits
    exact ⟨kind', ht'.put_jar hnew hdomain hensure⟩

theorem Typed.set {h : Heap} {kind : ℕ → Option Kind} (ht : Typed realm stored h kind)
    {domain name value : Str} (hdomain : domain ≠ "__proto__".toList)
    (hname : name ≠ "__proto__".toList) (hstored : stored domain name value) :
    ∃ kind', Typed realm stored (CookieJar.set realm h domain name value) kind' := by
  rw [CookieJar.set]
  cases hensure : CookieJar.ensureDomain realm h domain with
  | none => exact ⟨kind, ht⟩
  | some h =>
      obtain ⟨kind, ht⟩ := ht.ensureDomain hdomain hensure
      rcases ht.get_jar domain with hget | ⟨r, hget, hr⟩
      · simp only [hget]
        exact ⟨kind, ht⟩
      · simp only [hget]
        have hr := hr.resolve_right fun h => hdomain h.1
        split
        · have hfits : Fits realm stored kind (cookieObj realm value) (.cookie domain name value) :=
            ⟨rfl, hstored⟩
          obtain ⟨kind', hext, hnew, ht'⟩ := ht.alloc hfits
          refine ⟨kind', ?_⟩
          cases hput : (h.alloc (cookieObj realm value)).2.put r name
              (.ref (h.alloc (cookieObj realm value)).1) with
          | none => exact ht'
          | some h' => exact ht'.put_cell (hext r _ hr) hnew hname hput
        · exact ⟨kind, ht⟩

/-! ## The empty jar -/

/-- The kinds of the engine's objects and of the empty jar. -/
def startKind (realm : Realm) (r : ℕ) : Option Kind :=
  if r = jar realm then some .jar
  else if r = realm.objectProto ∨ r = realm.functionProto then some .inert
  else (realm.methodName r).map .cell

theorem startKind_jar : startKind realm (jar realm) = some .jar := if_pos rfl

theorem startKind_builtin {r : ℕ} (hr : r < realm.heap.size) :
    startKind realm r = if r = realm.objectProto ∨ r = realm.functionProto then some .inert
      else (realm.methodName r).map .cell :=
  if_neg (Nat.ne_of_lt hr)

theorem startKind_method {r : ℕ} {k : Str} (h : realm.methodName r = some k) :
    startKind realm r = some (.cell k) := by
  obtain ⟨hr, hobject, hfunction, -⟩ := realm.functions r k h
  rw [startKind_builtin hr, if_neg (by simp [hobject, hfunction]), h]
  rfl

theorem obj_new {r : ℕ} (hr : r < realm.heap.size) :
    (CookieJar.new realm).obj r = realm.heap.obj r :=
  Function.update_of_ne (Nat.ne_of_lt hr) _ _

theorem fits_new {r : ℕ} {K : Kind} (h : startKind realm r = some K) :
    Fits realm stored (startKind realm) ((CookieJar.new realm).obj r) K := by
  have hroot : startKind realm realm.objectProto = some .inert := by
    rw [startKind_builtin realm.size.1, if_pos (.inl rfl)]
  by_cases hjar : r = jar realm
  · subst hjar
    rw [startKind_jar] at h
    cases h
    have hobj : (CookieJar.new realm).obj (jar realm) = plain realm [] := Function.update_self ..
    rw [hobj]
    exact ⟨rfl, nofun⟩
  · rw [startKind, if_neg hjar] at h
    split at h
    · rename_i hbuiltin
      cases h
      have hsize : r < realm.heap.size := by
        rcases hbuiltin with rfl | rfl
        · exact realm.size.1
        · exact realm.size.2
      rw [obj_new hsize]
      refine ⟨realm.hidden r (hbuiltin.imp_right .inl), fun q hq => ?_⟩
      rcases hbuiltin with rfl | rfl
      · rw [realm.objectRoot] at hq
        cases hq
      · rw [realm.functionRoot] at hq
        cases hq
        exact hroot
    · obtain ⟨k, hname, rfl⟩ := Option.map_eq_some_iff.mp h
      obtain ⟨hsize, -, -, hproto⟩ := realm.functions r k hname
      have hinert : startKind realm realm.functionProto = some .inert := by
        rw [startKind_builtin realm.size.2, if_pos (.inr rfl)]
      rw [obj_new hsize]
      refine ⟨⟨realm.functionProto, hproto, hinert⟩, fun p hp => ?_⟩
      obtain ⟨hhidden, haccessor⟩ := realm.hidden r (.inr (.inr (by simp [hname]))) p hp
      exact ⟨haccessor, fun henum => by rw [hhidden] at henum; cases henum⟩

theorem typed_new : Typed realm stored (CookieJar.new realm) (startKind realm) where
  bounded r K hr := by
    rw [startKind] at hr
    have hsize : (CookieJar.new realm).size = realm.heap.size + 1 := rfl
    split at hr
    · rename_i hjar
      rw [hjar, hsize]
      exact Nat.lt_succ_self _
    · split at hr
      · rename_i hbuiltin
        have := realm.size
        omega
      · obtain ⟨k, hname, -⟩ := Option.map_eq_some_iff.mp hr
        have := (realm.functions r k hname).1
        omega
  fits _ _ hr := fits_new hr
  jarKind := startKind_jar
  root := by rw [startKind_builtin realm.size.1, if_pos (.inl rfl)]
  rootObj := obj_new realm.size.1
  methods _ _ := startKind_method

end CookieJar

end K6Rs
