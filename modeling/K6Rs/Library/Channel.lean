import Mathlib.Data.List.Basic
import Mathlib.Data.List.Perm.Basic
import Mathlib.Logic.Function.Basic

/-! Bounded channels, and the books of several senders that post to one of them. -/

/-- A first-in first-out queue that refuses what does not fit. -/
structure Channel (α : Type*) where
  capacity : ℕ
  queue : List α
  bounded : queue.length ≤ capacity

namespace Channel

variable {α : Type*}

def new (capacity : ℕ) : Channel α := ⟨capacity, [], Nat.zero_le capacity⟩

def Full (c : Channel α) : Prop := c.queue.length = c.capacity

instance (c : Channel α) : Decidable c.Full := inferInstanceAs (Decidable (_ = _))

def trySend (c : Channel α) (a : α) : Option (Channel α) :=
  if h : c.Full then none
  else some ⟨c.capacity, c.queue ++ [a], by
    have := c.bounded
    rw [Full] at h
    simp only [List.length_append, List.length_singleton]
    omega⟩

def recv : Channel α → Option (α × Channel α)
  | ⟨_, [], _⟩ => none
  | ⟨capacity, a :: queue, h⟩ => some (a, ⟨capacity, queue, Nat.le_of_succ_le h⟩)

/-- The channel whose receiver discarded what was queued. -/
def discard (c : Channel α) : Channel α := new c.capacity

@[simp] theorem queue_new (capacity : ℕ) : (new capacity : Channel α).queue = [] := rfl

@[simp] theorem queue_discard (c : Channel α) : c.discard.queue = [] := rfl

theorem trySend_eq_none {c : Channel α} {a : α} : c.trySend a = none ↔ c.Full := by
  rw [trySend]
  split <;> simp_all

theorem queue_of_trySend {c c' : Channel α} {a : α} (h : c.trySend a = some c') :
    c'.queue = c.queue ++ [a] := by
  rw [trySend] at h
  split at h
  · cases h
  · cases h
    rfl

theorem recv_eq_none {c : Channel α} : c.recv = none ↔ c.queue = [] := by
  obtain ⟨capacity, queue, h⟩ := c
  cases queue <;> simp [recv]

theorem queue_of_recv {c c' : Channel α} {a : α} (h : c.recv = some (a, c')) :
    c.queue = a :: c'.queue := by
  obtain ⟨capacity, queue, hbounded⟩ := c
  cases queue with
  | nil => cases h
  | cons b queue =>
      cases h
      rfl

end Channel

/-- What a sender posts, with a ticket that no other post has. -/
structure Post (ι α : Type*) where
  sender : ι
  ticket : ℕ
  content : α
  deriving DecidableEq

namespace Post

variable {ι α : Type*} [DecidableEq ι]

/-- The posts of one sender. -/
def ofSender (i : ι) (posts : List (Post ι α)) : List (Post ι α) :=
  posts.filter fun x => x.sender = i

theorem ofSender_append (i : ι) (xs ys : List (Post ι α)) :
    ofSender i (xs ++ ys) = ofSender i xs ++ ofSender i ys :=
  List.filter_append ..

theorem ofSender_sublist {xs ys : List (Post ι α)} (h : xs.Sublist ys) (i : ι) :
    (ofSender i xs).Sublist (ofSender i ys) :=
  h.filter _

theorem ofSender_singleton_self (x : Post ι α) : ofSender x.sender [x] = [x] := by
  simp [ofSender]

theorem ofSender_singleton_of_ne {i : ι} {x : Post ι α} (h : x.sender ≠ i) :
    ofSender i [x] = [] := by
  simp [ofSender, h]

end Post

/-- The books of senders that post one thing at a time. A post is pending until it is
sent or refused; it is never both and never twice, and the posts of one sender are sent in
the order in which it posted them. -/
structure Postings (ι α : Type*) [DecidableEq ι] [DecidableEq α] where
  log : List (Post ι α)
  pending : ι → Option (Post ι α)
  sent : List (Post ι α)
  refused : List (Post ι α)
  tickets : ∀ x ∈ log, x.ticket < log.length
  nodup : log.Nodup
  own : ∀ i x, pending i = some x → x.sender = i
  count : ∀ x, log.count x =
    (pending x.sender).toList.count x + sent.count x + refused.count x
  order : ∀ i, (Post.ofSender i sent ++ (pending i).toList).Sublist (Post.ofSender i log)

namespace Postings

variable {ι α : Type*} [DecidableEq ι] [DecidableEq α]

def new : Postings ι α where
  log := []
  pending := fun _ => none
  sent := []
  refused := []
  tickets := nofun
  nodup := List.nodup_nil
  own := nofun
  count := fun _ => rfl
  order := fun _ => .slnil

variable (b : Postings ι α)

/-- The next post of the sender `i`. -/
def draft (i : ι) (a : α) : Post ι α := ⟨i, b.log.length, a⟩

theorem draft_not_mem (i : ι) (a : α) : b.draft i a ∉ b.log := by
  intro h
  have := b.tickets _ h
  simp [draft] at this

/-- The sender `i`, which has nothing pending, posts `a`. -/
def post (i : ι) (a : α) (h : b.pending i = none) : Postings ι α where
  log := b.log ++ [b.draft i a]
  pending := Function.update b.pending i (some (b.draft i a))
  sent := b.sent
  refused := b.refused
  tickets := by
    intro x hx
    rw [List.length_append, List.length_singleton]
    cases List.mem_append.mp hx with
    | inl hx => exact Nat.lt_succ_of_lt (b.tickets x hx)
    | inr hx =>
        rw [List.mem_singleton.mp hx]
        exact Nat.lt_succ_self _
  nodup := by
    rw [List.nodup_append]
    refine ⟨b.nodup, by simp, ?_⟩
    intro x hx y hy hxy
    rw [List.mem_singleton.mp hy] at hxy
    exact b.draft_not_mem i a (hxy ▸ hx)
  own := by
    intro j x hx
    by_cases hj : j = i
    · subst hj
      rw [Function.update_self] at hx
      cases hx
      rfl
    · rw [Function.update_of_ne hj] at hx
      exact b.own j x hx
  count := by
    intro x
    have hcount := b.count x
    rw [List.count_append, hcount]
    by_cases hx : x.sender = i
    · rw [hx, Function.update_self, h]
      simp only [Option.toList_none, Option.toList_some, List.count_nil]
      omega
    · rw [Function.update_of_ne hx]
      have hne : b.draft i a ≠ x := fun hdraft => hx (hdraft ▸ rfl)
      simp [hne]
  order := by
    intro j
    rw [Post.ofSender_append]
    by_cases hj : j = i
    · subst hj
      have hself : Post.ofSender j [b.draft j a] = [b.draft j a] :=
        Post.ofSender_singleton_self (b.draft j a)
      rw [Function.update_self, hself]
      have hsub := b.order j
      rw [h] at hsub
      exact (by simpa using hsub : (Post.ofSender j b.sent).Sublist _).append_right _
    · rw [Function.update_of_ne hj]
      exact (b.order j).trans (List.sublist_append_left _ _)

theorem own_settle (i j : ι) (y : Post ι α) (hy : Function.update b.pending i none j = some y) :
    y.sender = j := by
  by_cases hj : j = i
  · rw [hj, Function.update_self] at hy
    cases hy
  · rw [Function.update_of_ne hj] at hy
    exact b.own j y hy

theorem count_settle {i : ι} {x : Post ι α} (h : b.pending i = some x) (y : Post ι α) :
    (b.pending y.sender).toList.count y =
      (Function.update b.pending i none y.sender).toList.count y + [x].count y := by
  by_cases hy : y.sender = i
  · rw [hy, Function.update_self, h]
    simp
  · have hne : x ≠ y := fun hxy => hy (hxy ▸ b.own i x h)
    rw [Function.update_of_ne hy]
    simp [hne]

/-- The pending post `x` of the sender `i` is sent. -/
def send (i : ι) (x : Post ι α) (h : b.pending i = some x) : Postings ι α where
  log := b.log
  pending := Function.update b.pending i none
  sent := b.sent ++ [x]
  refused := b.refused
  tickets := b.tickets
  nodup := b.nodup
  own := b.own_settle i
  count := by
    intro y
    rw [b.count y, List.count_append, b.count_settle h]
    omega
  order := by
    intro j
    have hsub := b.order j
    rw [Post.ofSender_append]
    by_cases hj : j = i
    · subst hj
      have hself : Post.ofSender j [x] = [x] := by
        rw [← b.own j x h]
        exact Post.ofSender_singleton_self x
      simpa [h, hself] using hsub
    · rw [Function.update_of_ne hj,
        Post.ofSender_singleton_of_ne fun hx => hj (hx.symm.trans (b.own i x h)), List.append_nil]
      exact hsub

/-- The pending post `x` of the sender `i` is refused. -/
def refuse (i : ι) (x : Post ι α) (h : b.pending i = some x) : Postings ι α where
  log := b.log
  pending := Function.update b.pending i none
  sent := b.sent
  refused := b.refused ++ [x]
  tickets := b.tickets
  nodup := b.nodup
  own := b.own_settle i
  count := by
    intro y
    rw [b.count y, List.count_append, b.count_settle h]
    omega
  order := by
    intro j
    have hsub := b.order j
    by_cases hj : j = i
    · rw [hj, Function.update_self]
      rw [hj] at hsub
      exact (List.sublist_append_left _ _).trans (by simpa using hsub)
    · rwa [Function.update_of_ne hj]

/-- Once nothing is pending, every post was sent or refused, exactly once. -/
theorem perm_of_idle (h : ∀ i, b.pending i = none) : (b.sent ++ b.refused).Perm b.log := by
  rw [List.perm_iff_count]
  intro x
  rw [b.count x, h, List.count_append]
  simp

theorem length_of_idle (h : ∀ i, b.pending i = none) :
    b.log.length = b.sent.length + b.refused.length := by
  rw [← (b.perm_of_idle h).length_eq, List.length_append]

/-- The sent posts of one sender stand in the order in which it posted them. -/
theorem sent_order (i : ι) : (Post.ofSender i b.sent).Sublist (Post.ofSender i b.log) :=
  (List.sublist_append_left _ _).trans (b.order i)

theorem mem_log_of_pending {i : ι} {x : Post ι α} (h : b.pending i = some x) : x ∈ b.log := by
  have hcount := b.count x
  rw [b.own i x h, h, Option.toList_some, List.count_singleton_self] at hcount
  rw [← List.count_pos_iff]
  omega

end Postings
