import K6Rs.Verification.Http.Pool
import K6Rs.Verification.Http.Redirect

/-! # Which connections go back to the pool

A connection of a failed or dropped request, or one that a response closes, is spoiled. The
client reads one `Connection` header of a response and keeps no bytes that are not ASCII in
it, so it puts a spoiled connection back exactly where a response asks for `close` elsewhere. -/

namespace K6Rs

namespace HyperPool

variable {Ip Net : Type}

/-- Every opened connection has exactly one place, which is no slot but the one it was opened
for, and none of the spoiled ones went back to the pool. -/
structure Kept (s : HyperPool Ip) : Prop where
  place : ∀ i < s.opened, ∃! at' : Conn Ip × Place Ip, at'.1.id = i ∧ s.At at'.1 at'.2
  opened : ∀ c p, s.At c p → c.id < s.opened
  slot : ∀ key, ∀ c ∈ s.pool key, c.key = key
  once : ∀ key, (s.pool key).Nodup
  never : s.reentered = []

theorem Placed.kept {s : HyperPool Ip} (h : s.Placed) (hnever : s.reentered = []) : s.Kept where
  place i hi := by
    obtain ⟨c, p, hid, hat⟩ := h.total i hi
    refine ⟨(c, p), ⟨hid, hat⟩, ?_⟩
    rintro ⟨c', p'⟩ ⟨hid', hat'⟩
    obtain ⟨rfl, rfl⟩ := h.unique c c' p p' hat hat' (hid.trans hid'.symm)
    rfl
  opened := h.fresh
  slot key c hc := h.slot c key hc
  once := h.nodup
  never := hnever

/-- Spoiled connections are closed, and none is in the pool. -/
structure Discarded (s : HyperPool Ip) : Prop where
  placed : s.Placed
  closed : ∀ c ∈ s.spoiled, c ∈ s.closed
  never : s.reentered = []

/-- The connection of a request is not closed. -/
theorem Placed.not_closed {s : HyperPool Ip} (h : s.Placed) {r : ℕ} {conn : Conn Ip}
    (hconn : (s.requests r).conn = some conn) : conn ∉ s.closed := by
  intro hmem
  have hclosed : s.At conn .closed := hmem
  have hused : s.At conn (.used r) := hconn
  cases h.place_unique hclosed hused

/-- A step that spoils at most the connection it closes. -/
theorem Discarded.closes {s s' : HyperPool Ip} (h : s.Discarded) (hplaced : s'.Placed)
    {conn : Conn Ip} (hspoiled : ∀ c ∈ s'.spoiled, c = conn ∨ c ∈ s.spoiled)
    (hclosed : s'.closed = conn :: s.closed) (hnever : s'.reentered = s.reentered) :
    s'.Discarded where
  placed := hplaced
  closed c hc := by
    rw [hclosed, List.mem_cons]
    exact (hspoiled c hc).imp_right (h.closed c)
  never := hnever.trans h.never

variable [DecidableEq Ip] {lib : NetLib Ip Net} {cfg : HyperConfig Ip Net}

theorem reentered_release (s : HyperPool Ip) (key : RouteKey Ip) (conn : Conn Ip) :
    (s.release key conn).reentered = [] ↔ conn ∉ s.spoiled ∧ s.reentered = [] := by
  by_cases hmem : conn ∈ s.spoiled <;> simp [release, hmem]

theorem Discarded.finish {s : HyperPool Ip} (h : s.Discarded) {r : ℕ} {route : Route Ip}
    {key : RouteKey Ip} {conn : Conn Ip} {headers : List HeaderLine}
    (hpc : s.requests r = .draining route key conn headers)
    (hheeded : ¬s.Unheeded cfg (.drained r))
    (hplaced : (finish cfg s r key conn headers).Placed) :
    (finish cfg s r key conn headers).Discarded := by
  simp only [Unheeded, hpc] at hheeded
  rcases finish_cases cfg s r key conn headers with ⟨-, t, ht, heq⟩ | ⟨hreuse, hread, heq⟩
  · rw [heq] at hplaced ⊢
    rcases ht with rfl | rfl
    · exact h.closes hplaced (fun c hc => .inr hc) rfl rfl
    · exact h.closes hplaced (fun c hc => List.mem_cons.mp hc) rfl rfl
  · -- the connection is released: the response did not ask for `close`
    have hasks : headers.any HeaderLine.asksClose ≠ true := fun hasks =>
      hheeded ⟨hreuse, hasks, hread⟩
    rw [heq, if_neg hasks] at hplaced ⊢
    have hconn := h.placed.not_closed (conn_of_draining hpc)
    have hclean : conn ∉ s.spoiled := fun hmem => hconn (h.closed conn hmem)
    exact ⟨hplaced, h.closed, (reentered_release _ _ _).mpr ⟨hclean, h.never⟩⟩

theorem Discarded.step {s s' : HyperPool Ip} {e : Event Ip} (h : s.Discarded)
    (hs : Steps lib cfg s e s') (hheeded : ¬s.Unheeded cfg e) : s'.Discarded := by
  have hplaced := h.placed.step hs
  cases hs with
  | start => exact ⟨hplaced, h.closed, h.never⟩
  | hit => exact ⟨hplaced, h.closed, h.never⟩
  | miss => exact ⟨hplaced, h.closed, h.never⟩
  | opened => exact ⟨hplaced, h.closed, h.never⟩
  | unopened => exact ⟨hplaced, h.closed, h.never⟩
  | failed _ r conn hconn he =>
      exact h.closes hplaced (fun c hc => List.mem_cons.mp hc) rfl rfl
  | respond => exact ⟨hplaced, h.closed, h.never⟩
  | drained r route key conn headers hpc => exact h.finish hpc hheeded hplaced

theorem discarded_of_run {es : List (Event Ip)} {s : HyperPool Ip}
    (h : (hyperSystem lib cfg).Runs (fun s e => ¬s.Unheeded cfg e) es s) : s.Discarded :=
  h.invariant (I := Discarded) (fun _ hs => hs ▸ ⟨placed_new, nofun, rfl⟩)
    fun _ _ _ hd hheeded hs => hd.step (steps_of_step hs) hheeded

/-! ## What was put back stays recorded -/

theorem reentered_of_steps {s s' : HyperPool Ip} {e : Event Ip} (hs : Steps lib cfg s e s')
    (hnever : s'.reentered = []) : s.reentered = [] := by
  cases hs with
  | start => exact hnever
  | hit => exact hnever
  | miss => exact hnever
  | opened => exact hnever
  | unopened => exact hnever
  | failed => exact hnever
  | respond => exact hnever
  | drained r route key conn headers hpc =>
      rcases finish_cases cfg s r key conn headers with ⟨-, t, rfl | rfl, heq⟩ | ⟨-, -, heq⟩
      · rwa [heq] at hnever
      · rwa [heq] at hnever
      · rw [heq, reentered_release] at hnever
        split at hnever <;> exact hnever.2

/-- An unheeded `close` puts a spoiled connection back. -/
theorem reentered_of_unheeded {s s' : HyperPool Ip} {e : Event Ip} (hs : Steps lib cfg s e s')
    (hunheeded : s.Unheeded cfg e) : s'.reentered ≠ [] := by
  cases hs with
  | start => exact hunheeded.elim
  | hit => exact hunheeded.elim
  | miss => exact hunheeded.elim
  | opened => exact hunheeded.elim
  | unopened _ r route key hpc he => exact absurd hunheeded he
  | failed _ r conn hconn he => exact absurd hunheeded he
  | respond => exact hunheeded.elim
  | drained r route key conn headers hpc =>
      simp only [Unheeded, hpc] at hunheeded
      obtain ⟨hreuse, hasks, hread⟩ := hunheeded
      rcases finish_cases cfg s r key conn headers with ⟨hclose, -⟩ | ⟨-, -, heq⟩
      · simp [hreuse, hread] at hclose
      · rw [heq, if_pos hasks, ne_eq, reentered_release]
        exact fun h => h.1 List.mem_cons_self

/-- In the runs in which every `close` is heeded, and in no others, the connections are
kept apart. -/
theorem kept_iff_heeded {es : List (Event Ip)} {s : HyperPool Ip}
    (h : (hyperSystem lib cfg).AnyRun es s) :
    s.Kept ↔ (hyperSystem lib cfg).Runs (fun s e => ¬s.Unheeded cfg e) es s := by
  constructor
  · intro hkept
    refine h.avoids (F := fun s => s.reentered = []) ?_ ?_ hkept.never
    · exact fun _ _ _ _ hs => reentered_of_steps (steps_of_step hs)
    · exact fun _ _ _ hunheeded hs => reentered_of_unheeded (steps_of_step hs) hunheeded
  · intro hheeded
    have hd := discarded_of_run hheeded
    exact hd.placed.kept hd.never

/-! ## A response with two `Connection` headers -/

def connectionLine (value : Str) : HeaderLine :=
  ⟨"connection".toList, value.map fun c => c.toNat.toUInt8⟩

/-- A host that asks for a close and another that does not, and a second request to each. -/
def fourRequests : List (Event Unit) :=
  [.start 0 "http://a.example/".toList, .start 1 "http://b.example/".toList, .acquire 1, .acquire 0,
    .opened 0 (some ()), .opened 1 (some ()), .respond 0 [connectionLine "close".toList],
    .respond 1 [connectionLine "keep-alive".toList], .drained 1, .drained 0,
    .start 2 "http://b.example/".toList, .acquire 2, .start 3 "http://a.example/".toList,
    .acquire 3, .opened 3 (some ()), .respond 2 [], .respond 3 [], .drained 3, .drained 2]

/-- One request, answered with these values of `Connection`. -/
def oneRequest (values : List Str) : List (Event Unit) :=
  [.start 0 "http://a.example/".toList, .acquire 0, .opened 0 (some ()),
    .respond 0 (values.map connectionLine), .drained 0]

theorem kept_iff_heeded_close : ∃ s : HyperPool Unit,
    (hyperSystem twoHosts (plainConfig Unit Unit)).AnyRun fourRequests s ∧
      (s.Kept ↔ (hyperSystem twoHosts (plainConfig Unit Unit)).Runs
        (fun s e => ¬s.Unheeded (plainConfig Unit Unit) e) fourRequests s) := by
  have hexec : ∃ s : HyperPool Unit,
      (hyperSystem twoHosts (plainConfig Unit Unit)).AnyRun fourRequests s ∧ s.reentered = [] :=
    StepSystem.exists_run_of_exec _ (s := .new) rfl (by decide)
  obtain ⟨s, hrun, -⟩ := hexec
  exact ⟨s, hrun, kept_iff_heeded hrun⟩

theorem not_kept_of_second_line :
    ¬∀ (lib : NetLib Unit Unit) (cfg : HyperConfig Unit Unit) (es : List (Event Unit))
      (s : HyperPool Unit), (hyperSystem lib cfg).AnyRun es s → s.Kept := by
  intro h
  have hexec : ∃ s : HyperPool Unit,
      (hyperSystem twoHosts (plainConfig Unit Unit)).AnyRun
        (oneRequest ["keep-alive".toList, "close".toList]) s ∧ s.reentered ≠ [] :=
    StepSystem.exists_run_of_exec _ (s := .new) rfl (by decide)
  obtain ⟨s, hrun, hreentered⟩ := hexec
  exact hreentered (h _ _ _ s hrun).never

end HyperPool

end K6Rs
