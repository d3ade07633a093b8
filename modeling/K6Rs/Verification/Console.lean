import K6Rs.Model.Console

/-! # Which emit calls of the console are accounted for

A record that is put into the queue while the worker is in its loop is written or counted
as a write error. One that gets there after the loop has ended is in the queue when the
receiver is dropped, and nothing counts it. -/

namespace K6Rs

namespace Console

variable {n : ℕ}

/-- What each event does. -/
inductive Steps (s : Console n) : Event n → Console n → Prop where
  | call (p level message) (h : s.postings.pending p = none) :
      Steps s (.call p level message) { s.setEmitter p .entered with
        truncated := s.truncated + (Record.ofEmit level message).2.toNat
        postings := s.postings.post p (Record.ofEmit level message).1 h }
  | load (p) (h : s.emitters p = .entered) :
      Steps s (.load p) (s.setEmitter p (if s.closed then .refused else .open))
  | send (p r channel) (hr : s.postings.pending p = some r) (hpc : s.emitters p = .open)
      (halive : s.worker ≠ .gone) (h : s.channel.trySend (.record r) = some channel) :
      Steps s (.send p) { s.setEmitter p .idle with
        channel
        postings := s.postings.send p r hr }
  | bounce (p) (hpc : s.emitters p = .open) (h : s.worker = .gone ∨ s.channel.Full) :
      Steps s (.send p) (s.setEmitter p .refused)
  | count (p r) (hr : s.postings.pending p = some r) (hpc : s.emitters p = .refused) :
      Steps s (.count p) { s.setEmitter p .idle with
        dropped := s.dropped + 1
        postings := s.postings.refuse p r hr }
  | workerLoad (h : s.worker = .top) :
      Steps s .workerLoad { s with worker := if s.closed then .polling else .receiving }
  | take (r channel) (hpc : s.worker = .polling ∨ s.worker = .receiving)
      (h : s.channel.recv = some (.record r, channel)) :
      Steps s .workerRecv { s with channel, worker := .writing r, received := s.received ++ [r] }
  | awake (channel) (hpc : s.worker = .polling ∨ s.worker = .receiving)
      (h : s.channel.recv = some (.wake, channel)) :
      Steps s .workerRecv { s with channel, worker := .top }
  | leave (hpc : s.worker = .polling) (h : s.channel.queue = []) :
      Steps s .workerRecv { s with worker := .left }
  | write (r) (h : s.worker = .writing r) :
      Steps s (.workerWrite true) { s with worker := .top, written := s.written ++ [r] }
  | writeFailed (r) (h : s.worker = .writing r) :
      Steps s (.workerWrite false) { s with
        worker := .top
        writeErrors := s.writeErrors + 1
        failed := s.failed ++ [r] }
  | workerSignal (h : s.worker = .left) : Steps s .workerSignal { s with worker := .signalled }
  | workerDrop (h : s.worker = .signalled) :
      Steps s .workerDrop { s with
        worker := .gone
        channel := s.channel.discard
        lost := s.lost ++ records s.channel.queue }
  | close : Steps s .close { s with shutdown := .closing, closed := true }
  | wake (channel) (halive : s.worker ≠ .gone) (h : s.channel.trySend .wake = some channel) :
      Steps s .wake { s with shutdown := .awaiting, channel }
  | unheard : Steps s .wake { s with shutdown := .awaiting }
  | done : Steps s .done { s with shutdown := .joining }
  | join (h : s.worker = .gone) : Steps s .join { s with shutdown := .returned false }
  | timeout : Steps s .timeout { s with shutdown := .returned true }

theorem trySend_cases (s : Console n) (entry : ConsoleEntry n) :
    (∃ channel, s.worker ≠ .gone ∧ s.channel.trySend entry = some channel ∧
      s.trySend entry = some channel) ∨
    ((s.worker = .gone ∨ s.channel.Full) ∧ s.trySend entry = none) := by
  rw [trySend]
  split
  · rename_i hgone
    exact .inr ⟨.inl hgone, rfl⟩
  · rename_i halive
    cases h : s.channel.trySend entry with
    | none => exact .inr ⟨.inr (Channel.trySend_eq_none.mp h), rfl⟩
    | some channel => exact .inl ⟨channel, halive, rfl, rfl⟩

theorem steps_of_workerRecv {s s' : Console n} (h : s.step .workerRecv = some s') :
    Steps s .workerRecv s' := by
  simp only [step] at h
  split at h
  · rename_i entry channel hpc hrecv
    cases entry with
    | record r => cases h; exact .take r channel (.inl hpc) hrecv
    | wake => cases h; exact .awake channel (.inl hpc) hrecv
  · rename_i hpc hrecv
    cases h
    exact .leave hpc (Channel.recv_eq_none.mp hrecv)
  · rename_i entry channel hpc hrecv
    cases entry with
    | record r => cases h; exact .take r channel (.inr hpc) hrecv
    | wake => cases h; exact .awake channel (.inr hpc) hrecv
  · cases h

theorem steps_of_step {s s' : Console n} {e : Event n} (h : s.step e = some s') :
    Steps s e s' := by
  cases e with
  | call p level message =>
      simp only [step] at h
      split at h
      · rename_i hp
        cases h
        exact .call p level message hp
      · cases h
  | load p =>
      simp only [step] at h
      split at h <;> cases h
      exact .load p ‹_›
  | send p =>
      simp only [step] at h
      split at h
      · rename_i r hr
        split at h
        · rename_i hpc
          rcases s.trySend_cases (.record r) with ⟨channel, halive, hsend, heq⟩ | ⟨hno, heq⟩
          · rw [heq] at h
            cases h
            exact .send p r channel hr hpc halive hsend
          · rw [heq] at h
            cases h
            exact .bounce p hpc hno
        · cases h
      · cases h
  | count p =>
      simp only [step] at h
      split at h
      · rename_i r hr
        split at h
        · rename_i hpc
          cases h
          exact .count p r hr hpc
        · cases h
      · cases h
  | workerLoad =>
      simp only [step] at h
      split at h <;> cases h
      exact .workerLoad ‹_›
  | workerRecv => exact steps_of_workerRecv h
  | workerWrite ok =>
      simp only [step] at h
      split at h
      · rename_i r hpc
        cases ok with
        | true => cases h; exact .write r hpc
        | false => cases h; exact .writeFailed r hpc
      · cases h
  | workerSignal =>
      simp only [step] at h
      split at h <;> cases h
      exact .workerSignal ‹_›
  | workerDrop =>
      simp only [step] at h
      split at h <;> cases h
      exact .workerDrop ‹_›
  | close =>
      simp only [step] at h
      split at h <;> cases h
      exact .close
  | wake =>
      simp only [step] at h
      split at h
      · rcases s.trySend_cases .wake with ⟨channel, halive, hsend, heq⟩ | ⟨hno, heq⟩
        · rw [heq] at h
          cases h
          exact .wake channel halive hsend
        · rw [heq] at h
          cases h
          exact .unheard
      · cases h
  | done =>
      simp only [step] at h
      split at h
      · split at h <;> cases h
        exact .done
      · cases h
  | join =>
      simp only [step] at h
      split at h
      · split at h <;> cases h
        exact .join ‹_›
      · cases h
  | timeout =>
      simp only [step] at h
      split at h <;> cases h
      exact .timeout

/-! ## What every reachable state satisfies -/

theorem records_append (xs ys : List (ConsoleEntry n)) :
    records (xs ++ ys) = records xs ++ records ys :=
  List.filterMap_append

@[simp] theorem records_nil : records ([] : List (ConsoleEntry n)) = [] := rfl

@[simp] theorem records_record (r : Line n) : records [ConsoleEntry.record r] = [r] := rfl

@[simp] theorem records_wake : records [(ConsoleEntry.wake : ConsoleEntry n)] = [] := rfl

/-- A producer is idle exactly when no call of it is open. -/
def Matched (s : Console n) : Prop := ∀ p, s.postings.pending p = none ↔ s.emitters p = .idle

/-- The queued records have been received, are in the queue, or were lost with it. -/
structure Flow (s : Console n) : Prop where
  sent : s.postings.sent = s.received ++ records s.channel.queue ++ s.lost
  alive : s.worker ≠ .gone → s.lost = []
  gone : s.worker = .gone → s.channel.queue = []

/-- The record that the worker writes. -/
def hand (s : Console n) : List (Line n) :=
  match s.worker with
  | .writing r => [r]
  | _ => []

/-- The received records were written, or counted as write errors, or are being written. -/
structure Handled (s : Console n) : Prop where
  split : s.received.Perm (s.written ++ s.failed ++ s.hand)
  order : (s.written ++ s.hand).Sublist s.received
  failures : s.failed.length = s.writeErrors

/-- The refused calls are the ones that were counted as dropped. -/
def Counted (s : Console n) : Prop := s.postings.refused.length = s.dropped

theorem hand_of_writing {s : Console n} {r : Line n} (h : s.worker = .writing r) :
    s.hand = [r] := by
  rw [hand, h]

theorem hand_of_quiet {s : Console n} (h : ∀ r, s.worker ≠ .writing r) : s.hand = [] := by
  rw [hand]
  split
  · rename_i r hr
    exact absurd hr (h r)
  · rfl

theorem Matched.move {s : Console n} (h : s.Matched) (p : Fin n) {pc : EmitPc}
    (hbusy : s.emitters p ≠ .idle) (hpc : pc ≠ .idle) : (s.setEmitter p pc).Matched := by
  intro q
  by_cases hq : q = p
  · subst hq
    simp only [setEmitter, Function.update_self, h q, hbusy, hpc]
  · simp only [setEmitter, Function.update_of_ne hq, h q]

theorem Matched.step {s s' : Console n} {e : Event n} (h : s.Matched) (hs : Steps s e s') :
    s'.Matched := by
  cases hs with
  | call p level message hp =>
      intro q
      by_cases hq : q = p
      · subst hq
        simp [setEmitter, Postings.post]
      · simp [setEmitter, Postings.post, Function.update_of_ne hq, h q]
  | load p hpc =>
      apply h.move p (by simp [hpc])
      split <;> simp
  | send p r channel hr hpc halive hsend =>
      intro q
      by_cases hq : q = p
      · subst hq
        simp [setEmitter, Postings.send]
      · simp [setEmitter, Postings.send, Function.update_of_ne hq, h q]
  | bounce p hpc hno => exact h.move p (by simp [hpc]) (by simp)
  | count p r hr hpc =>
      intro q
      by_cases hq : q = p
      · subst hq
        simp [setEmitter, Postings.refuse]
      · simp [setEmitter, Postings.refuse, Function.update_of_ne hq, h q]
  | _ => exact h

theorem Flow.step {s s' : Console n} {e : Event n} (h : s.Flow) (hs : Steps s e s') : s'.Flow := by
  cases hs with
  | send p r channel hr hpc halive hsend =>
      refine ⟨?_, h.alive, fun hgone => absurd hgone halive⟩
      simp only [Postings.send, setEmitter, Channel.queue_of_trySend hsend, records_append,
        records_record, h.sent, h.alive halive, List.append_nil, List.append_assoc]
  | workerLoad htop =>
      refine ⟨h.sent, fun _ => h.alive (by simp [htop]), fun hgone => ?_⟩
      simp only at hgone
      split at hgone <;> cases hgone
  | take r channel hpc hrecv =>
      have halive : s.worker ≠ .gone := by
        rcases hpc with hpc | hpc <;> simp [hpc]
      refine ⟨?_, fun _ => h.alive halive, nofun⟩
      simp only [h.sent, Channel.queue_of_recv hrecv, h.alive halive, List.append_nil,
        List.append_assoc]
      rfl
  | awake channel hpc hrecv =>
      have halive : s.worker ≠ .gone := by
        rcases hpc with hpc | hpc <;> simp [hpc]
      refine ⟨?_, fun _ => h.alive halive, nofun⟩
      rw [h.sent, Channel.queue_of_recv hrecv]
      rfl
  | leave hpc hempty => exact ⟨h.sent, fun _ => h.alive (by simp [hpc]), nofun⟩
  | write r hpc => exact ⟨h.sent, fun _ => h.alive (by simp [hpc]), nofun⟩
  | writeFailed r hpc => exact ⟨h.sent, fun _ => h.alive (by simp [hpc]), nofun⟩
  | workerSignal hpc => exact ⟨h.sent, fun _ => h.alive (by simp [hpc]), nofun⟩
  | workerDrop hpc =>
      refine ⟨?_, fun hne => absurd rfl hne, fun _ => rfl⟩
      simp only [h.sent, h.alive (by simp [hpc] : s.worker ≠ .gone), Channel.queue_discard,
        records_nil, List.append_nil, List.nil_append]
  | wake channel halive hsend =>
      refine ⟨?_, h.alive, fun hgone => absurd hgone halive⟩
      simp only [h.sent, Channel.queue_of_trySend hsend, records_append, records_wake,
        List.append_nil]
  | _ => exact ⟨h.sent, h.alive, h.gone⟩

/-- A step of the worker that takes and writes nothing. -/
theorem Handled.quiet {s s' : Console n} (h : s.Handled) (hreceived : s'.received = s.received)
    (hwritten : s'.written = s.written) (hfailed : s'.failed = s.failed)
    (herrors : s'.writeErrors = s.writeErrors) (hhand : s'.hand = s.hand) : s'.Handled := by
  refine ⟨?_, ?_, ?_⟩
  · rw [hreceived, hwritten, hfailed, hhand]
    exact h.split
  · rw [hreceived, hwritten, hhand]
    exact h.order
  · rw [hfailed, herrors]
    exact h.failures

theorem Handled.step {s s' : Console n} {e : Event n} (h : s.Handled) (hs : Steps s e s') :
    s'.Handled := by
  cases hs with
  | workerLoad htop =>
      refine h.quiet rfl rfl rfl rfl ?_
      rw [hand_of_quiet (s := s) (by simp [htop]), hand_of_quiet]
      intro r hr
      simp only at hr
      split at hr <;> cases hr
  | take r channel hpc hrecv =>
      have hquiet : s.hand = [] := hand_of_quiet (by rcases hpc with hpc | hpc <;> simp [hpc])
      have hsplit := h.split
      have horder := h.order
      rw [hquiet, List.append_nil] at hsplit horder
      exact ⟨hsplit.append_right _, horder.append_right _, h.failures⟩
  | awake channel hpc hrecv =>
      have hquiet : s.hand = [] := hand_of_quiet (by rcases hpc with hpc | hpc <;> simp [hpc])
      exact h.quiet rfl rfl rfl rfl hquiet.symm
  | leave hpc hempty =>
      exact h.quiet rfl rfl rfl rfl (hand_of_quiet (s := s) (by simp [hpc])).symm
  | write r hpc =>
      have hsplit := h.split
      have horder := h.order
      rw [hand_of_writing hpc] at hsplit horder
      refine ⟨?_, ?_, h.failures⟩
      · simp only [hand, List.append_nil]
        refine hsplit.trans ?_
        rw [List.append_assoc, List.append_assoc]
        exact List.perm_append_comm.append_left _
      · simpa [hand] using horder
  | writeFailed r hpc =>
      have hsplit := h.split
      have horder := h.order
      rw [hand_of_writing hpc] at hsplit horder
      refine ⟨?_, ?_, ?_⟩
      · simpa [hand, List.append_assoc] using hsplit
      · simpa [hand] using (List.sublist_append_left _ _).trans horder
      · simp [h.failures]
  | workerSignal hpc =>
      exact h.quiet rfl rfl rfl rfl (hand_of_quiet (s := s) (by simp [hpc])).symm
  | workerDrop hpc =>
      exact h.quiet rfl rfl rfl rfl (hand_of_quiet (s := s) (by simp [hpc])).symm
  | _ => exact h.quiet rfl rfl rfl rfl rfl

theorem Counted.step {s s' : Console n} {e : Event n} (h : s.Counted) (hs : Steps s e s') :
    s'.Counted := by
  cases hs with
  | count p r hr hpc =>
      rw [Counted] at h ⊢
      simp [Postings.refuse, h]
  | _ => exact h

/-- The invariant of every run. -/
structure Inv (s : Console n) : Prop where
  matched : s.Matched
  flow : s.Flow
  handled : s.Handled
  counted : s.Counted

theorem inv_new (capacity : ℕ) : (new capacity : Console n).Inv where
  matched := fun _ => ⟨fun _ => rfl, fun _ => rfl⟩
  flow := ⟨rfl, fun _ => rfl, nofun⟩
  handled := ⟨.nil, .slnil, rfl⟩
  counted := rfl

theorem inv_of_run {capacity : ℕ} {es : List (Event n)} {s : Console n}
    (h : (consoleSystem n capacity).AnyRun es s) : s.Inv :=
  h.invariant (fun _ hs => hs ▸ inv_new capacity) fun _ _ _ hinv _ hs =>
    have hsteps := steps_of_step hs
    ⟨hinv.matched.step hsteps, hinv.flow.step hsteps, hinv.handled.step hsteps,
      hinv.counted.step hsteps⟩

/-! ## The size of a record -/

theorem utf8Len_ofEmit (level : ConsoleLevel) (message : Str) :
    (Record.ofEmit level message).1.message.utf8Len ≤ MAX_MESSAGE_BYTES := by
  rw [Record.ofEmit]
  split
  · exact (Str.utf8Len_truncate_le _ _).trans (Str.charBoundary_le _ _)
  · rename_i h
    exact Nat.le_of_not_lt h

/-- No record that an emit call made holds more than `MAX_MESSAGE_BYTES`. -/
def Cut (s : Console n) : Prop :=
  ∀ r ∈ s.postings.log, r.content.message.utf8Len ≤ MAX_MESSAGE_BYTES

theorem Cut.step {s s' : Console n} {e : Event n} (h : s.Cut) (hs : Steps s e s') : s'.Cut := by
  cases hs with
  | call p level message hp =>
      intro r hr
      rcases List.mem_append.mp hr with hr | hr
      · exact h r hr
      · rw [List.mem_singleton.mp hr]
        exact utf8Len_ofEmit level message
  | _ => exact h

theorem cut_of_run {capacity : ℕ} {es : List (Event n)} {s : Console n}
    (h : (consoleSystem n capacity).AnyRun es s) : s.Cut :=
  h.invariant (I := Cut) (fun _ hs => hs ▸ nofun) fun _ _ _ hinv _ hs =>
    hinv.step (steps_of_step hs)

/-! ## What is lost -/

/-- The records that nothing will account for. -/
def stranded (s : Console n) : ℕ :=
  s.lost.length +
    if s.worker = .left ∨ s.worker = .signalled then (records s.channel.queue).length else 0

theorem stranded_of_busy {s : Console n} (hleft : s.worker ≠ .left)
    (hsignalled : s.worker ≠ .signalled) : s.stranded = s.lost.length := by
  rw [stranded, if_neg (by simp [hleft, hsignalled]), Nat.add_zero]

theorem stranded_of_left {s : Console n} (h : s.worker = .left ∨ s.worker = .signalled) :
    s.stranded = s.lost.length + (records s.channel.queue).length := by
  rw [stranded, if_pos h]

theorem stranded_lt {s s' : Console n} {e : Event n} (hlate : s.Late e) (hs : Steps s e s') :
    s.stranded < s'.stranded := by
  cases hs with
  | send p r channel hr hpc halive hsend =>
      rw [stranded_of_left hlate.2.1, stranded_of_left (by exact hlate.2.1)]
      simp [setEmitter, Channel.queue_of_trySend hsend, records_append]
  | bounce p hpc hno =>
      rcases hno with hgone | hfull
      · rcases hlate.2.1 with h | h <;> simp [h] at hgone
      · exact absurd hfull hlate.2.2
  | _ => exact hlate.elim

theorem stranded_eq {s s' : Console n} {e : Event n} (hgood : ¬s.Late e) (hs : Steps s e s') :
    s'.stranded = s.stranded := by
  cases hs with
  | send p r channel hr hpc halive hsend =>
      have hfull : ¬s.channel.Full := fun h => by
        rw [Channel.trySend_eq_none.mpr h] at hsend
        cases hsend
      have hin : ¬(s.worker = .left ∨ s.worker = .signalled) := fun h => hgood ⟨hpc, h, hfull⟩
      rw [not_or] at hin
      rw [stranded_of_busy hin.1 hin.2, stranded_of_busy (by exact hin.1) (by exact hin.2)]
      rfl
  | workerLoad htop =>
      rw [stranded_of_busy (s := s) (by simp [htop]) (by simp [htop]), stranded_of_busy]
      · simp only
        split <;> simp
      · simp only
        split <;> simp
  | take r channel hpc hrecv =>
      rw [stranded_of_busy (by simp) (by simp), stranded_of_busy] <;>
        rcases hpc with hpc | hpc <;> simp [hpc]
  | awake channel hpc hrecv =>
      rw [stranded_of_busy (by simp) (by simp), stranded_of_busy] <;>
        rcases hpc with hpc | hpc <;> simp [hpc]
  | leave hpc hempty =>
      rw [stranded_of_left (.inl rfl), stranded_of_busy (by simp [hpc]) (by simp [hpc]), hempty]
      rfl
  | write r hpc =>
      rw [stranded_of_busy (by simp) (by simp), stranded_of_busy (by simp [hpc]) (by simp [hpc])]
  | writeFailed r hpc =>
      rw [stranded_of_busy (by simp) (by simp), stranded_of_busy (by simp [hpc]) (by simp [hpc])]
  | workerSignal hpc => rw [stranded_of_left (.inr rfl), stranded_of_left (.inl hpc)]
  | workerDrop hpc =>
      rw [stranded_of_busy (by simp) (by simp), stranded_of_left (.inr hpc), List.length_append]
  | wake channel halive hsend =>
      simp [stranded, Channel.queue_of_trySend hsend, records_append]
  | _ => rfl

/-! ## The finished run -/

theorem Inv.accounted_iff {s : Console n} (h : s.Inv) (hfin : s.Finished)
    (hgone : s.worker = .gone) : s.Accounted ↔ s.stranded = 0 := by
  have hidle : ∀ p, s.postings.pending p = none := fun p =>
    (h.matched p).mpr (hfin.emitters p)
  have hhand : s.hand = [] := hand_of_quiet (by simp [hgone])
  have hsplit := h.handled.split
  have horder := h.handled.order
  have hsent := h.flow.sent
  rw [hhand, List.append_nil] at hsplit horder
  rw [h.flow.gone hgone, records_nil, List.append_nil] at hsent
  have hlength : s.postings.log.length =
      s.written.length + s.failed.length + s.lost.length + s.postings.refused.length := by
    rw [s.postings.length_of_idle hidle, hsent, List.length_append, hsplit.length_eq,
      List.length_append]
  rw [stranded_of_busy (by simp [hgone]) (by simp [hgone])]
  constructor
  · intro hacc
    have htotal := hacc.total
    have hfailures := hacc.failures
    have hdrops := hacc.drops
    omega
  · intro hzero
    rw [List.length_eq_zero_iff.mp hzero, List.append_nil] at hsent
    have hfailures := h.handled.failures
    have hdrops : s.postings.refused.length = s.dropped := h.counted
    refine ⟨?_, hfailures, hdrops, by omega, fun p => ?_⟩
    · refine (hsplit.symm.append_right _).trans ?_
      rw [← hsent]
      exact s.postings.perm_of_idle hidle
    · exact (Post.ofSender_sublist (hsent ▸ horder) p).trans (s.postings.sent_order p)

/-- The shutdown joins the worker before it returns without a timeout. -/
def Joined (s : Console n) : Prop := s.shutdown = .returned false → s.worker = .gone

theorem Joined.step {s s' : Console n} {e : Event n} (h : s.Joined) (hs : Steps s e s') :
    s'.Joined := by
  cases hs with
  | workerLoad hpc => exact fun hret => by simp [h hret] at hpc
  | take r channel hpc hrecv => exact fun hret => by simp [h hret] at hpc
  | awake channel hpc hrecv => exact fun hret => by simp [h hret] at hpc
  | leave hpc hempty => exact fun hret => by simp [h hret] at hpc
  | write r hpc => exact fun hret => by simp [h hret] at hpc
  | writeFailed r hpc => exact fun hret => by simp [h hret] at hpc
  | workerSignal hpc => exact fun hret => by simp [h hret] at hpc
  | workerDrop hpc => exact fun _ => rfl
  | close => exact nofun
  | wake channel halive hsend => exact nofun
  | unheard => exact nofun
  | done => exact nofun
  | join hgone => exact fun _ => hgone
  | timeout => exact nofun
  | _ => exact h

theorem joined_of_run {capacity : ℕ} {es : List (Event n)} {s : Console n}
    (h : (consoleSystem n capacity).AnyRun es s) : s.Joined :=
  h.invariant (I := Joined) (fun _ hs => hs ▸ nofun) fun _ _ _ hinv _ hs =>
    hinv.step (steps_of_step hs)

/-- A finished run accounts for its emit calls exactly when no record was put into the
queue after the worker had left its loop. -/
theorem accounted_iff_never_late {capacity : ℕ} {es : List (Event n)} {s : Console n}
    (hrun : (consoleSystem n capacity).AnyRun es s) (hfin : s.Finished) :
    s.Accounted ↔ (consoleSystem n capacity).Runs (fun s e => ¬s.Late e) es s := by
  rw [(inv_of_run hrun).accounted_iff hfin (joined_of_run hrun hfin.shutdown)]
  apply hrun.counter_eq_zero_iff
  · rintro s rfl
    rfl
  · exact fun s e s' hlate hs => stranded_lt hlate (steps_of_step hs)
  · exact fun s e s' hgood hs => stranded_eq hgood (steps_of_step hs)

/-- Two producers call in turn, and the worker writes both lines before the shutdown. -/
def twoLines : List (Event 2) :=
  [.call 0 .warn ['a'], .call 1 .log ['b'], .load 1, .load 0, .send 1, .workerLoad, .workerRecv,
    .send 0, .workerWrite true, .workerLoad, .workerRecv, .workerWrite true, .close, .wake,
    .workerLoad, .workerRecv, .workerLoad, .workerRecv, .workerSignal, .done, .workerDrop, .join]

theorem twoLines_accounted :
    ∃ s, (consoleSystem 2 CONSOLE_CAPACITY).AnyRun twoLines s ∧ s.Finished ∧
      (s.Accounted ↔ (consoleSystem 2 CONSOLE_CAPACITY).Runs (fun s e =>
        ¬s.Late e) twoLines s) := by
  have hexec : ∃ s, (consoleSystem 2 CONSOLE_CAPACITY).AnyRun twoLines s ∧ s.Finished :=
    StepSystem.exists_run_of_exec _ rfl (by decide)
  obtain ⟨s, hrun, hfin⟩ := hexec
  exact ⟨s, hrun, hfin, accounted_iff_never_late hrun hfin⟩

/-- The producer sees the flag open, and puts its record into the queue when the worker
has seen the flag set and the queue empty. -/
def lateLine : List (Event 1) :=
  [.call 0 .log ['a'], .load 0, .close, .workerLoad, .workerRecv, .send 0, .wake, .workerSignal,
    .done, .workerDrop, .join]

theorem lateLine_not_accounted :
    ¬∀ (n capacity : ℕ) (es : List (Event n)) (s : Console n), 0 < capacity →
      (consoleSystem n capacity).AnyRun es s → s.Finished → s.Accounted := by
  intro h
  have hexec : ∃ s, (consoleSystem 1 CONSOLE_CAPACITY).AnyRun lateLine s ∧
      s.Finished ∧ s.written.length + s.writeErrors + s.dropped < s.postings.log.length :=
    StepSystem.exists_run_of_exec _ rfl (by decide)
  obtain ⟨s, hrun, hfin, hlt⟩ := hexec
  have htotal := (h 1 CONSOLE_CAPACITY lateLine s (by decide) hrun hfin).total
  omega

end Console

end K6Rs
