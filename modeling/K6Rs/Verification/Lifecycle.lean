import K6Rs.Model.Lifecycle

/-! # The setup data through the lifecycle

The writes that succeed have one order, which the reads and the hooks follow. A close that
got the lock finds no write between its look at the closing flag and its store, and after
the flag no call comes that far again. -/

namespace K6Rs

/-- The data that an operation with this outcome has stored. -/
def LifecycleOp.writes : LifecycleOp → LifecycleOutcome → Option (Option Str)
  | .putSetup data, .ok _ => some data
  | .hook true, .ok data => some data
  | _, _ => none

theorem LifecycleOp.writes_eq_none (op : LifecycleOp) {outcome : LifecycleOutcome}
    (h : ∀ data, outcome ≠ .ok data) : op.writes outcome = none := by
  rcases op with (_ | _) | data | _ <;> cases outcome <;> first | rfl | exact absurd rfl (h _)

namespace LifecyclePc

/-- Where the call stands at the lifecycle lock. -/
def place : LifecyclePc → Semaphore.Place
  | .idle | .called _ | .done _ _ => .out
  | .locking _ => .queued
  | .entered _ | .checked _ | .calling _ _ _ | .returned _ _ | .storing _ | .leaving _ _ => .inside

/-- What the call has stored. -/
def stored : LifecyclePc → Option (Option Str)
  | .leaving op outcome | .done op outcome => op.writes outcome
  | _ => none

/-- The hook that runs, and its argument. -/
def invocation : LifecyclePc → Option (Bool × Option Str)
  | .calling setup data _ => some (setup, data)
  | _ => none

/-- The call has begun to close the lifecycle. -/
def closes : LifecyclePc → Bool
  | .called op | .locking op | .leaving op _ | .done op _ => op = .closeLifecycle
  | _ => false

/-- The call has closed the lifecycle, and got the lock. -/
def closed : LifecyclePc → Bool
  | .leaving .closeLifecycle .closed | .done .closeLifecycle .closed => true
  | _ => false

/-- The call stores next. -/
def writing : LifecyclePc → Bool
  | .checked (.putSetup _) | .storing _ => true
  | _ => false

theorem closed_leaving {op : LifecycleOp} {outcome : LifecycleOutcome} (h : outcome ≠ .closed) :
    (leaving op outcome).closed = false := by
  cases op <;> cases outcome <;> first | rfl | exact absurd rfl h

theorem closes_of_closed {pc : LifecyclePc} (h : pc.closed = true) : pc.closes = true := by
  unfold closed at h
  split at h <;> simp_all [closes]

theorem not_writing_of_closed {pc : LifecyclePc} (h : pc.closed = true) : pc.writing = false := by
  unfold closed at h
  split at h <;> simp_all [writing]

theorem inside_of_writing {pc : LifecyclePc} (h : pc.writing = true) : pc.place = .inside := by
  unfold writing at h
  split at h <;> simp_all [place]

end LifecyclePc

namespace SetupAccess

/-- The last write of a history, or the data from before the run. -/
def lastWrite (history : List SetupAccess) : Option Str :=
  history.foldl (fun data a => match a with | .wrote _ data' => data' | _ => data) none

/-- A read and an invocation get the data that are there. -/
def Sees (data : Option Str) : SetupAccess → Prop
  | .read data' | .invoked _ _ data' => data' = data
  | .wrote _ _ => True

def writer : SetupAccess → Option ℕ
  | .wrote c _ => some c
  | _ => none

theorem lastWrite_append (history : List SetupAccess) (a : SetupAccess) :
    lastWrite (history ++ [a]) =
      match a with | .wrote _ data => data | _ => lastWrite history := by
  rw [lastWrite, List.foldl_append]
  rfl

end SetupAccess

open SetupAccess (lastWrite)

namespace LifecycleControl

variable {l l' : LifecycleControl} {c : ℕ} {pc : LifecyclePc}

/-- The calls that succeed in writing are serialized by the history: each of them wrote
once, nobody else did, and who reads or invokes gets the last write before. -/
structure Serial (l : LifecycleControl) : Prop where
  data : l.setupData = lastWrite l.history
  sees : ∀ before a after, l.history = before ++ a :: after → a.Sees (lastWrite before)
  wrote : ∀ c data, .wrote c data ∈ l.history ↔ (l.calls c).stored = some data
  once : (l.history.filterMap SetupAccess.writer).Nodup
  invoked : ∀ c setup data, (l.calls c).invocation = some (setup, data) →
    .invoked c setup data ∈ l.history

/-- The call `c` goes on to `pc`, and the data stay. -/
structure Moves (l l' : LifecycleControl) (c : ℕ) (pc : LifecyclePc) : Prop where
  data : l'.setupData = l.setupData
  history : l'.history = l.history
  calls : l'.calls = Function.update l.calls c pc

/-- A step that does not touch the data, nor what a call has stored. -/
theorem Serial.keeps (h : l.Serial) (hdata : l'.setupData = l.setupData)
    (hhistory : l'.history = l.history) (hstored : ∀ d, (l'.calls d).stored = (l.calls d).stored)
    (hinvocation : ∀ d, (l'.calls d).invocation = none ∨
      (l'.calls d).invocation = (l.calls d).invocation) : l'.Serial := by
  refine ⟨?_, ?_, fun d data => ?_, ?_, fun d setup data hd => ?_⟩
  · rw [hdata, hhistory]
    exact h.data
  · rw [hhistory]
    exact h.sees
  · rw [hhistory, hstored, h.wrote]
  · rw [hhistory]
    exact h.once
  · rw [hhistory]
    apply h.invoked
    rcases hinvocation d with hnone | hsame
    · simp [hnone] at hd
    · rw [← hsame, hd]

theorem Serial.moves (h : l.Serial) (hmove : l.Moves l' c pc)
    (hstored : pc.stored = (l.calls c).stored)
    (hinvocation : pc.invocation = none ∨ pc.invocation = (l.calls c).invocation) :
    l'.Serial := by
  refine h.keeps hmove.data hmove.history (fun d => ?_) fun d => ?_
  all_goals
    rw [hmove.calls]
    by_cases hd : d = c
    · subst hd
      simpa only [Function.update_self]
    · simp only [Function.update_of_ne hd, or_true]

/-- An access that gets the data which are there. -/
theorem sees_append {history : List SetupAccess} {a : SetupAccess}
    (h : ∀ before a after, history = before ++ a :: after → a.Sees (lastWrite before))
    (ha : a.Sees (lastWrite history)) (before : List SetupAccess) (x : SetupAccess)
    (after : List SetupAccess) (heq : history ++ [a] = before ++ x :: after) :
    x.Sees (lastWrite before) := by
  rcases List.eq_nil_or_concat after with rfl | ⟨init, z, rfl⟩
  · obtain ⟨rfl, hx⟩ := List.append_inj' heq rfl
    cases hx
    exact ha
  · have heq' : history ++ [a] = (before ++ x :: init) ++ [z] := by simpa using heq
    exact h before x init (List.append_inj' heq' rfl).1

/-- The call `c` goes on to `pc` with an access that is not a write. -/
theorem Serial.accesses (h : l.Serial) {a : SetupAccess} (ha : a.writer = none)
    (hsees : a.Sees l.setupData) (hdata : l'.setupData = l.setupData)
    (hhistory : l'.history = l.history ++ [a])
      (hstored : ∀ d, (l'.calls d).stored = (l.calls d).stored)
    (hinvocation : ∀ d, (l'.calls d).invocation = (l.calls d).invocation ∨
      ∃ setup data, (l'.calls d).invocation = some (setup, data) ∧ a = .invoked d setup data) :
    l'.Serial := by
  refine ⟨?_, ?_, fun d data => ?_, ?_, fun d setup data hd => ?_⟩
  · rw [hdata, hhistory, SetupAccess.lastWrite_append, h.data]
    cases a with
    | wrote => cases ha
    | read | invoked => rfl
  · rw [hhistory]
    exact sees_append h.sees (h.data ▸ hsees)
  · rw [hhistory, List.mem_append, List.mem_singleton, h.wrote, hstored, or_iff_left]
    rintro rfl
    cases ha
  · simpa [hhistory, ha] using h.once
  · rw [hhistory, List.mem_append, List.mem_singleton]
    rcases hinvocation d with hsame | ⟨setup', data', hnew, rfl⟩
    · exact .inl (h.invoked d setup data (hsame ▸ hd))
    · rw [hd] at hnew
      cases hnew
      exact .inr rfl

/-- The call `c` writes, and is done with that. -/
theorem Serial.writes (h : l.Serial) {data : Option Str} (hbefore : (l.calls c).stored = none)
    (hafter : pc.stored = some data) (hinvocation : pc.invocation = none) :
    ((l.write c data).setCall c pc).Serial := by
  refine ⟨?_, ?_, fun d data' => ?_, ?_, fun d setup data' hd => ?_⟩
  · exact (SetupAccess.lastWrite_append l.history (.wrote c data)).symm
  · exact sees_append h.sees trivial
  · change _ ∈ l.history ++ [_] ↔ (Function.update l.calls c pc d).stored = _
    rw [List.mem_append, List.mem_singleton, h.wrote]
    by_cases hd : d = c
    · subst hd
      simp [hbefore, hafter, eq_comm]
    · simp [hd]
  · change ((l.history ++ [SetupAccess.wrote c data]).filterMap SetupAccess.writer).Nodup
    rw [List.filterMap_append]
    refine h.once.append (List.nodup_singleton c) (List.disjoint_singleton.mpr fun hc => ?_)
    obtain ⟨a, ha, hwriter⟩ := List.mem_filterMap.mp hc
    cases a with
    | wrote d data' =>
        cases hwriter
        rw [h.wrote, hbefore] at ha
        cases ha
    | read | invoked => cases hwriter
  · change _ ∈ l.history ++ [_]
    change (Function.update l.calls c pc d).invocation = _ at hd
    by_cases hdc : d = c
    · subst hdc
      simp [hinvocation] at hd
    · rw [Function.update_of_ne hdc] at hd
      exact List.mem_append_left _ (h.invoked d setup data' hd)

structure Invariant (l : LifecycleControl) : Prop where
  total : l.lifecycleLock.total = 1
  tracks : l.lifecycleLock.Tracks fun c => (l.calls c).place
  closes : ∀ c, (l.calls c).closes = true → l.closing = true
  closed : ∀ c, (l.calls c).closed = true → ∀ d, (l.calls d).writing = false
  serial : l.Serial

namespace Invariant

variable (h : Invariant l)
include h

/-- The call `c` goes on to `pc` with a lock that keeps track of it. -/
theorem moves (hcalls : l'.calls = Function.update l.calls c pc)
    (htotal : l'.lifecycleLock.total = 1)
    (htracks : l'.lifecycleLock.Tracks fun d => (Function.update l.calls c pc d).place)
    (hclosing : l.closing = true → l'.closing = true)
    (hcloses : pc.closes = true → l'.closing = true)
    (hclosed : pc.closed = true →
      (l.calls c).closed = true ∨ ∀ d, d ≠ c → (l.calls d).writing = false)
    (hwriting : pc.writing = true → l.closing = false) (hserial : l'.Serial) : Invariant l' := by
  have hwrites : ∀ e, (l.calls e).closed = true → pc.writing = false := by
    intro e he
    by_contra hw
    rw [Bool.not_eq_false] at hw
    exact absurd (h.closes e (LifecyclePc.closes_of_closed he)) (by simp [hwriting hw])
  refine ⟨htotal, hcalls ▸ htracks, fun d hd => ?_, fun e he d => ?_, hserial⟩
  · rw [hcalls] at hd
    by_cases hdc : d = c
    · subst hdc
      rw [Function.update_self] at hd
      exact hcloses hd
    · rw [Function.update_of_ne hdc] at hd
      exact hclosing (h.closes d hd)
  · rw [hcalls] at he ⊢
    by_cases hec : e = c
    · subst hec
      rw [Function.update_self] at he
      by_cases hde : d = e
      · subst hde
        rw [Function.update_self]
        exact LifecyclePc.not_writing_of_closed he
      · rw [Function.update_of_ne hde]
        rcases hclosed he with hbefore | hother
        · exact h.closed e hbefore d
        · exact hother d hde
    · rw [Function.update_of_ne hec] at he
      by_cases hdc : d = c
      · subst hdc
        rw [Function.update_self]
        exact hwrites e he
      · rw [Function.update_of_ne hdc]
        exact h.closed e he d

/-- While a call holds the lock, nobody else does. -/
theorem alone (hc : c ∈ l.lifecycleLock.holding) (d : ℕ) (hd : d ≠ c) :
    (l.calls d).writing = false := by
  by_contra hw
  rw [Bool.not_eq_false] at hw
  have hin := h.tracks.holding_of_inside (LifecyclePc.inside_of_writing hw)
  exact hd (Semaphore.Tracks.holder_unique h.total hc hin)

/-- The call `c` goes on to `pc` where it stands. -/
theorem stays (hcalls : l'.calls = Function.update l.calls c pc)
    (hlock : l'.lifecycleLock = l.lifecycleLock)
    (hplace : pc.place = (l.calls c).place) (hclosing : l.closing = true → l'.closing = true)
    (hcloses : pc.closes = true → l'.closing = true) (hclosed : pc.closed = false)
    (hwriting : pc.writing = true → l.closing = false) (hserial : l'.Serial) : Invariant l' := by
  refine h.moves hcalls (hlock ▸ h.total) ?_ hclosing hcloses (by simp [hclosed]) hwriting hserial
  have hsame : (fun d => (Function.update l.calls c pc d).place) = fun d => (l.calls d).place := by
    funext d
    by_cases hd : d = c
    · subst hd
      rw [Function.update_self, hplace]
    · rw [Function.update_of_ne hd]
  rw [hlock, hsame]
  exact h.tracks

/-- The call `c` gives up its place at the lock. -/
theorem leaves (hcalls : l'.calls = Function.update l.calls c pc)
    (hlock : l'.lifecycleLock = l.lifecycleLock.cancel c)
    (hbefore : (l.calls c).place ≠ .out) (hafter : pc.place = .out)
    (hclosing : l'.closing = l.closing) (hcloses : pc.closes = true → l.closing = true)
    (hclosed : pc.closed = true → (l.calls c).closed = true) (hwriting : pc.writing = false)
    (hserial : l'.Serial) : Invariant l' := by
  refine h.moves hcalls ?_ ?_ (hclosing ▸ id) (hclosing ▸ hcloses) (fun hc => .inl (hclosed hc))
    (by simp [hwriting]) hserial
  · rw [hlock, Semaphore.cancel_total (h.tracks.waiting_or_holding hbefore)]
    exact h.total
  · rw [hlock]
    refine h.tracks.cancel (fun d hd => ?_) ?_
    · rw [Function.update_of_ne hd]
    · rw [Function.update_self, hafter]

theorem release_eq_cancel (hc : (l.calls c).place = .inside) :
    l.lifecycleLock.release c = l.lifecycleLock.cancel c := by
  have hin := h.tracks.holding_of_inside hc
  rw [Semaphore.cancel, if_neg (h.tracks.not_waiting_of_holding hin)]

end Invariant

theorem moves_setCall (l : LifecycleControl) (c : ℕ) (pc : LifecyclePc) :
    l.Moves (l.setCall c pc) c pc := ⟨rfl, rfl, rfl⟩

theorem Invariant.call {op : LifecycleOp} (h : Invariant l)
    (hs : l.step (.call c op) = some l') : Invariant l' := by
  simp only [step] at hs
  split at hs
  · rename_i hidle
    cases hs
    refine h.stays rfl rfl (by rw [hidle]; rfl) (fun hc => by simp [hc])
      (fun hc => by simpa using Or.inr (of_decide_eq_true hc)) rfl (by simp [LifecyclePc.writing])
      (h.serial.moves ⟨rfl, rfl, rfl⟩ (by rw [hidle]; rfl) (.inl rfl))
  · cases hs

theorem Invariant.lock (h : Invariant l) (hs : l.step (.lock c) = some l') : Invariant l' := by
  simp only [step] at hs
  split at hs
  · rename_i op hcalled
    cases hs
    refine h.moves rfl ((l.lifecycleLock.acquire_total c).trans h.total) ?_ id ?_ ?_
      (by simp [LifecyclePc.writing])
      (h.serial.moves ⟨rfl, rfl, rfl⟩ (by rw [hcalled]; rfl) (.inl rfl))
    · refine h.tracks.acquire (by rw [hcalled]; rfl) (fun d hd => ?_) (.inl ?_)
      · rw [Function.update_of_ne hd]
      · rw [Function.update_self]
        rfl
    · intro hc
      exact h.closes c (by rw [hcalled]; exact hc)
    · simp [LifecyclePc.closed]
  · cases hs

theorem Invariant.locked (h : Invariant l) (hs : l.step (.locked c) = some l') :
    Invariant l' := by
  simp only [step] at hs
  split at hs
  · rename_i op hlocking
    split at hs
    · rename_i hin
      cases hs
      have hserial := h.serial.moves (l.moves_setCall c
        (if op = .closeLifecycle then .leaving op .closed else .entered op))
      have hplace : (fun d => (Function.update l.calls c
          (if op = .closeLifecycle then .leaving op .closed else .entered op) d).place) c ≠
            .out := by
        simp only [Function.update_self]
        split <;> simp [LifecyclePc.place]
      refine h.moves rfl h.total ?_ id (fun hc => ?_)
        (fun _ => .inr (h.alone hin)) (fun hw => ?_) (hserial ?_ (.inl ?_))
      · refine h.tracks.goesIn hin (fun d hd => ?_) hplace
        rw [Function.update_of_ne hd]
      · apply h.closes c
        rw [hlocking]
        split at hc
        · rename_i hop
          simp [hop, LifecyclePc.closes]
        · cases hc
      · split at hw <;> cases hw
      · rw [hlocking]
        split
        · rename_i hop
          rw [hop]
          rfl
        · rfl
      · split <;> rfl
    · cases hs
  · cases hs

/-- A call finds the closing flag set. -/
theorem Invariant.refused (h : Invariant l) {op : LifecycleOp} (hclosing : l.closing = true)
    (hplace : (l.calls c).place = .inside) (hstored : (l.calls c).stored = none) :
    Invariant (l.setCall c (.leaving op .shuttingDown)) := by
  have hmove := l.moves_setCall c (.leaving op .shuttingDown)
  refine h.stays hmove.calls rfl hplace.symm id (fun _ => hclosing)
    (LifecyclePc.closed_leaving (by simp)) (by simp [LifecyclePc.writing]) ?_
  refine h.serial.moves hmove ?_ (.inl rfl)
  rw [hstored]
  exact op.writes_eq_none (by simp)

theorem Invariant.check (h : Invariant l) (hs : l.step (.check c) = some l') :
    Invariant l' := by
  simp only [step] at hs
  split at hs
  · rename_i op hentered
    split at hs
    · rename_i hclosing
      cases hs
      exact h.refused hclosing (by rw [hentered]; rfl) (by rw [hentered]; rfl)
    · rename_i hclosing
      cases hs
      have hmove := l.moves_setCall c (.checked op)
      refine h.stays hmove.calls rfl (by rw [hentered]; rfl) id (by simp [LifecyclePc.closes]) rfl
        (fun _ => by simpa using hclosing) ?_
      exact h.serial.moves hmove (by rw [hentered]; rfl) (.inl rfl)
  · rename_i setup data hreturned
    split at hs
    · rename_i hclosing
      cases hs
      exact h.refused hclosing (by rw [hreturned]; rfl) (by rw [hreturned]; rfl)
    · rename_i hclosing
      split at hs
      · cases hs
        have hmove := l.moves_setCall c (.storing data)
        refine h.stays hmove.calls rfl (by rw [hreturned]; rfl) id
          (by simp [LifecyclePc.closes]) rfl
          (fun _ => by simpa using hclosing) ?_
        exact h.serial.moves hmove (by rw [hreturned]; rfl) (.inl rfl)
      · rename_i hsetup
        cases hs
        have hmove := l.moves_setCall c (.leaving (.hook setup) (.ok data))
        refine h.stays hmove.calls rfl (by rw [hreturned]; rfl) id (by simp [LifecyclePc.closes])
          (LifecyclePc.closed_leaving (by simp)) (by simp [LifecyclePc.writing]) ?_
        refine h.serial.moves hmove ?_ (.inl rfl)
        rw [hreturned, Bool.eq_false_of_not_eq_true hsetup]
        rfl
  · cases hs

theorem Invariant.abortSeen (h : Invariant l) (hs : l.step (.abortSeen c) = some l') :
    Invariant l' := by
  simp only [step] at hs
  split at hs
  · rename_i data hcalling
    split at hs
    · cases hs
      have hmove := l.moves_setCall c (.calling true data true)
      refine h.stays hmove.calls rfl (by rw [hcalling]; rfl) id (by simp [LifecyclePc.closes]) rfl
        (by simp [LifecyclePc.writing]) ?_
      exact h.serial.moves hmove (by rw [hcalling]; rfl) (.inr (by rw [hcalling]; rfl))
    · cases hs
  · cases hs

theorem Invariant.returns {result : Option (Option Str)} (h : Invariant l)
    (hs : l.step (.returns c result) = some l') : Invariant l' := by
  simp only [step] at hs
  split at hs
  · rename_i setup _ _ hcalling
    cases hs
    cases result with
    | some data =>
        have hmove := l.moves_setCall c (.returned setup data)
        refine h.stays hmove.calls rfl (by rw [hcalling]; rfl) id (by simp [LifecyclePc.closes]) rfl
          (by simp [LifecyclePc.writing]) ?_
        exact h.serial.moves hmove (by rw [hcalling]; rfl) (.inl rfl)
    | none =>
        have hmove := l.moves_setCall c (.leaving (.hook setup) .failed)
        refine h.stays hmove.calls rfl (by rw [hcalling]; rfl) id (by simp [LifecyclePc.closes])
          (LifecyclePc.closed_leaving (by simp)) (by simp [LifecyclePc.writing]) ?_
        refine h.serial.moves hmove ?_ (.inl rfl)
        rw [hcalling]
        exact LifecycleOp.writes_eq_none _ (by simp)
  · cases hs

theorem Invariant.leave (h : Invariant l) (hs : l.step (.leave c) = some l') :
    Invariant l' := by
  simp only [step] at hs
  split at hs
  · rename_i op outcome hleaving
    cases hs
    have hclosed : (LifecyclePc.done op outcome).closed = (l.calls c).closed := by
      rw [hleaving]
      cases op <;> cases outcome <;> rfl
    refine h.leaves rfl (h.release_eq_cancel (by rw [hleaving]; rfl))
      (by rw [hleaving]; simp [LifecyclePc.place]) rfl rfl (fun hc => ?_) (hclosed ▸ id) rfl
      (h.serial.moves ⟨rfl, rfl, rfl⟩ (by rw [hleaving]; rfl) (.inl rfl))
    exact h.closes c (by rw [hleaving]; exact hc)
  · cases hs

theorem Invariant.timeout (h : Invariant l) (hs : l.step (.timeout c) = some l') :
    Invariant l' := by
  simp only [step] at hs
  split at hs
  · rename_i hlocking
    cases hs
    refine h.leaves rfl rfl (by rw [hlocking]; simp [LifecyclePc.place]) rfl rfl
      (fun _ => ?_) (by simp [LifecyclePc.closed]) rfl
      (h.serial.moves ⟨rfl, rfl, rfl⟩ (by rw [hlocking]; rfl) (.inl rfl))
    exact h.closes c (by rw [hlocking]; rfl)
  · cases hs

theorem closed_dropped (op : LifecycleOp) : (LifecyclePc.done op .dropped).closed = false := by
  cases op <;> rfl

theorem Invariant.drop (h : Invariant l) (hs : l.step (.drop c) = some l') :
    Invariant l' := by
  simp only [step] at hs
  split at hs
  · rename_i op hcalled
    cases hs
    have hmove := l.moves_setCall c (.done op .dropped)
    refine h.stays hmove.calls rfl (by rw [hcalled]; rfl) id (fun hc => ?_) (closed_dropped op)
      (by simp [LifecyclePc.writing])
      (h.serial.moves hmove ?_ (.inl rfl))
    · exact h.closes c (by rw [hcalled]; exact hc)
    · rw [hcalled]
      exact op.writes_eq_none (by simp)
  · rename_i op hlocking
    cases hs
    refine h.leaves rfl rfl (by rw [hlocking]; simp [LifecyclePc.place]) rfl rfl
      (fun hc => ?_) (by simp [closed_dropped]) rfl
      (h.serial.moves ⟨rfl, rfl, rfl⟩ ?_ (.inl rfl))
    · exact h.closes c (by rw [hlocking]; exact hc)
    · rw [hlocking]
      exact op.writes_eq_none (by simp)
  · rename_i setup _ _ hcalling
    cases hs
    refine h.leaves rfl (h.release_eq_cancel (by rw [hcalling]; rfl))
      (by rw [hcalling]; simp [LifecyclePc.place]) rfl rfl (by simp [LifecyclePc.closes])
      (by simp [closed_dropped]) rfl (h.serial.moves ⟨rfl, rfl, rfl⟩ ?_ (.inl rfl))
    rw [hcalling]
    exact LifecycleOp.writes_eq_none _ (by simp)
  · cases hs

theorem Invariant.read (h : Invariant l) (hs : l.step .read = some l') : Invariant l' := by
  cases hs
  exact ⟨h.total, h.tracks, h.closes, h.closed,
    h.serial.accesses (a := .read l.setupData) rfl rfl rfl rfl (fun _ => rfl) fun _ => .inl rfl⟩

theorem Invariant.invoke (h : Invariant l) (hs : l.step (.invoke c) = some l') :
    Invariant l' := by
  simp only [step] at hs
  split at hs
  · rename_i setup hchecked
    cases hs
    have hserial : Serial { l.setCall c (.calling setup l.setupData false) with
        history := l.history ++ [.invoked c setup l.setupData] } := by
      refine h.serial.accesses (a := .invoked c setup l.setupData) rfl rfl rfl rfl (fun d => ?_)
        fun d => ?_
      · by_cases hd : d = c
        · subst hd
          simp [setCall, hchecked, LifecyclePc.stored]
        · simp [setCall, hd]
      · by_cases hd : d = c
        · subst hd
          exact .inr ⟨setup, l.setupData, by simp [setCall, LifecyclePc.invocation], rfl⟩
        · simp [setCall, hd]
    exact h.stays rfl rfl (by rw [hchecked]; rfl) id (by simp [LifecyclePc.closes]) rfl
      (by simp [LifecyclePc.writing]) hserial
  · cases hs

theorem Invariant.writes (h : Invariant l) {data : Option Str}
    {op : LifecycleOp} {outcome : LifecycleOutcome} (hplace : (l.calls c).place = .inside)
    (hstored : (l.calls c).stored = none) (hop : op ≠ .closeLifecycle)
    (hwrites : op.writes outcome = some data) :
    Invariant ((l.write c data).setCall c (.leaving op outcome)) := by
  refine h.stays rfl rfl hplace.symm id (by simp [LifecyclePc.closes, hop]) ?_
    (by simp [LifecyclePc.writing]) (h.serial.writes hstored hwrites rfl)
  cases op with
  | closeLifecycle => exact absurd rfl hop
  | hook | putSetup => cases outcome <;> rfl

theorem Invariant.store (h : Invariant l) (hs : l.step (.store c) = some l') : Invariant l' := by
  simp only [step] at hs
  split at hs
  · rename_i data hchecked
    cases hs
    exact h.writes (by rw [hchecked]; rfl) (by rw [hchecked]; rfl) (by simp) rfl
  · rename_i data hstoring
    cases hs
    exact h.writes (by rw [hstoring]; rfl) (by rw [hstoring]; rfl) (by simp) rfl
  · cases hs

theorem Invariant.step {e : Event} (h : Invariant l) (hs : l.step e = some l') :
    Invariant l' := by
  cases e with
  | read => exact h.read hs
  | call c op => exact h.call hs
  | lock c => exact h.lock hs
  | locked c => exact h.locked hs
  | check c => exact h.check hs
  | invoke c => exact h.invoke hs
  | abortSeen c => exact h.abortSeen hs
  | returns c result => exact h.returns hs
  | store c => exact h.store hs
  | leave c => exact h.leave hs
  | timeout c => exact h.timeout hs
  | drop c => exact h.drop hs
  | stop =>
      cases hs
      exact ⟨h.total, h.tracks, h.closes, h.closed, h.serial.keeps rfl rfl (fun _ => rfl) fun _ =>
        .inr rfl⟩
  | shutdown =>
      cases hs
      exact ⟨h.total, h.tracks, fun _ _ => rfl, h.closed,
        h.serial.keeps rfl rfl (fun _ => rfl) fun _ => .inr rfl⟩

theorem Invariant.init : Invariant new := by
  refine ⟨rfl, .new 1, by simp [new, LifecyclePc.closes], by simp [new, LifecyclePc.closed], ?_⟩
  exact ⟨rfl, by simp [new], by simp [new, LifecyclePc.stored], .nil,
    by simp [new, LifecyclePc.invocation]⟩

/-! ## What stays -/

/-- The history grows, only a call that was about to store changes the data, and what is done
stays done. -/
structure Follows (l l' : LifecycleControl) : Prop where
  history : l.history <+: l'.history
  data : l'.setupData = l.setupData ∨ ∃ c, (l.calls c).writing = true
  done : ∀ c op outcome, l.calls c = .done op outcome → l'.calls c = .done op outcome

theorem Follows.of_calls (hhistory : l.history <+: l'.history)
    (hdata : l'.setupData = l.setupData ∨ ∃ c, (l.calls c).writing = true)
    (hcalls : l'.calls = Function.update l.calls c pc)
    (hc : ∀ op outcome, l.calls c ≠ .done op outcome) : l.Follows l' := by
  refine ⟨hhistory, hdata, fun d op outcome hd => ?_⟩
  have hdc : d ≠ c := fun heq => hc op outcome (heq ▸ hd)
  rw [hcalls, Function.update_of_ne hdc, hd]

theorem Follows.of_step {e : Event} (hs : l.step e = some l') : l.Follows l' := by
  cases e <;> simp only [step] at hs
  case read =>
    cases hs
    exact ⟨List.prefix_append _ _, .inl rfl, fun _ _ _ => id⟩
  case stop | shutdown =>
    cases hs
    exact ⟨List.prefix_rfl, .inl rfl, fun _ _ _ => id⟩
  case invoke c =>
    split at hs
    · rename_i hchecked
      cases hs
      exact .of_calls (List.prefix_append _ _) (.inl rfl) rfl (by simp [hchecked])
    · cases hs
  case store c =>
    split at hs
    · rename_i hchecked
      cases hs
      exact .of_calls (List.prefix_append _ _) (.inr ⟨c, by rw [hchecked]; rfl⟩) rfl
        (by simp [hchecked])
    · rename_i hstoring
      cases hs
      exact .of_calls (List.prefix_append _ _) (.inr ⟨c, by rw [hstoring]; rfl⟩) rfl
        (by simp [hstoring])
    · cases hs
  -- Every other step moves one call, which was not done.
  all_goals
    (repeat' split at hs) <;> cases hs <;>
      exact .of_calls List.prefix_rfl (.inl rfl) rfl (by simp [*])

theorem Invariant.of_run {es : List Event} (h : lifecycleSystem.AnyRun es l) : Invariant l :=
  h.invariant (fun _ hinit => hinit ▸ .init) fun _ _ _ hinv _ hs => hinv.step hs

theorem Invariant.data_of_closed (h : Invariant l)
    (hclosed : l.calls c = .done .closeLifecycle .closed)
    (hstep : l.Follows l') : l'.setupData = l.setupData := by
  refine hstep.data.resolve_right ?_
  rintro ⟨d, hd⟩
  have := h.closed c (by rw [hclosed]; rfl) d
  simp [this] at hd

end LifecycleControl

/-- The writes that succeed take effect in the order of the history, which reads and hooks
follow, and nothing else writes. After a close that got the lock the data stay. -/
theorem setup_data_serial {es : List LifecycleControl.Event} {l : LifecycleControl}
    (h : lifecycleSystem.AnyRun es l) :
    l.Serial ∧ ∀ fs l', (lifecycleSystem.after l).AnyRun fs l' → l.history <+: l'.history ∧
      ((∃ c, l.calls c = .done .closeLifecycle .closed) → l'.setupData = l.setupData) := by
  have hinv := LifecycleControl.Invariant.of_run h
  refine ⟨hinv.serial, fun fs l' hafter => ⟨?_, ?_⟩⟩
  · refine hafter.after_invariant (I := fun m => l.history <+: m.history) List.prefix_rfl ?_
    intro m e m' hm _ hs
    exact hm.trans (LifecycleControl.Follows.of_step hs).history
  · rintro ⟨c, hc⟩
    have hall := hafter.after_invariant (I := fun m => LifecycleControl.Invariant m ∧
      m.calls c = .done .closeLifecycle .closed ∧ m.setupData = l.setupData) ⟨hinv, hc, rfl⟩ ?_
    · exact hall.2.2
    · rintro m e m' ⟨hm, hclosed, hdata⟩ _ hs
      have hfollows := LifecycleControl.Follows.of_step hs
      exact ⟨hm.step hs, hfollows.done c _ _ hclosed,
        (hm.data_of_closed hclosed hfollows).trans hdata⟩

/-- A hook that was aborted stores what it returned before a close that waits for it; the write
that waited behind the hook stores before the close, and the one that comes late is rejected. -/
theorem setup_data_serial_aborted : ∃ l : LifecycleControl,
    l.calls 3 = .done (.putSetup none) .shuttingDown ∧ l.Serial ∧
      ∀ fs l', (lifecycleSystem.after l).AnyRun fs l' → l.history <+: l'.history ∧
        ((∃ c, l.calls c = .done .closeLifecycle .closed) → l'.setupData = l.setupData) := by
  obtain ⟨l, hrun, hlate, _⟩ : ∃ l, lifecycleSystem.AnyRun
      [.call 0 (.hook true), .lock 0, .locked 0, .check 0, .invoke 0,
        .call 1 (.putSetup (some "42".toList)), .lock 1, .stop, .abortSeen 0,
        .returns 0 (some (some "7".toList)), .check 0, .read, .store 0, .leave 0, .locked 1,
        .check 1, .call 2 .closeLifecycle, .lock 2, .call 3 (.putSetup none), .lock 3, .store 1,
        .leave 1, .locked 2, .leave 2, .locked 3, .check 3, .leave 3, .read] l ∧
      l.calls 3 = .done (.putSetup none) .shuttingDown ∧
      l.setupData = some "42".toList ∧ l.calls 2 = .done .closeLifecycle .closed :=
    StepSystem.exists_run_of_exec _ (s := .new) rfl (by decide +kernel)
  exact ⟨l, hlate, setup_data_serial hrun⟩

end K6Rs
