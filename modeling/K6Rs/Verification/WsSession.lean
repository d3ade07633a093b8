import K6Rs.Model.WsSession

/-! # Messages and the end of a session

The commands keep their order from the queue to the socket, and the close is the last of
them. What has not been written when the write task is over is lost; a session that leaves
the task its turns, until it ends by itself, loses nothing. -/

namespace K6Rs

namespace WsSession

/-- The texts of the messages among the commands. -/
def messages (commands : List WsCommand) : List Str :=
  commands.filterMap fun c => match c with | .send text => some text | _ => none

@[simp] theorem messages_nil : messages [] = [] := rfl

@[simp] theorem messages_append (xs ys : List WsCommand) :
    messages (xs ++ ys) = messages xs ++ messages ys := List.filterMap_append

/-- The commands that are not written. -/
def pending (s : WsSession) : List WsCommand := s.writing.toList ++ s.commands

/-- When the write task is over, every accepted message is written. -/
def Kept (s : WsSession) : Prop := s.task ≠ .running → messages s.pending = []

/-- The write task is torn down only where it has ended by itself, as it does behind the close,
or where the script has never sent a message; and the socket takes every write. -/
def RunsOut (s : WsSession) : Event → Prop
  | .next => s.pc = .closeHandlers → s.task = .ended ∨ s.accepted = []
  | .unwind => s.task = .ended ∨ s.accepted = []
  | .writeFails => False
  | _ => True

instance : DecidableRel RunsOut := fun s e =>
  match e with
  | .next => inferInstanceAs (Decidable (s.pc = .closeHandlers → s.task = .ended ∨ s.accepted = []))
  | .unwind => inferInstanceAs (Decidable (s.task = .ended ∨ s.accepted = []))
  | .writeFails => .isFalse id
  | .send _ | .ping | .close | .yield | .resume | .throw | .receive _ | .peerCloses | .take
  | .wrote => .isTrue trivial

/-- The step ends the write task before an accepted message is written, or accepts one after
that. -/
def Loses (s : WsSession) : Event → Prop
  | .next => s.pc = .closeHandlers ∧ s.task = .running ∧ messages s.pending ≠ []
  | .unwind => s.task = .running ∧ messages s.pending ≠ []
  | .writeFails => messages s.pending ≠ []
  | .send _ => s.closed = false ∧ s.task ≠ .running
  | _ => False

variable {s s' : WsSession} {e : Event}

/-! ## The commands of a session -/

structure Invariant (s : WsSession) : Prop where
  accepted : s.accepted = messages (s.written ++ s.pending)
  closeLast : ∀ before after, s.written ++ s.pending = before ++ .close :: after → after = []
  closed : .close ∈ s.written ++ s.pending → s.closed = true

/-- The step leaves the commands alone. -/
structure Quiet (s s' : WsSession) : Prop where
  pending : s'.pending = s.pending
  written : s'.written = s.written
  accepted : s'.accepted = s.accepted
  closed : s.closed = true → s'.closed = true

theorem Quiet.refl (s : WsSession) : Quiet s s := ⟨rfl, rfl, rfl, id⟩

theorem Invariant.quiet (h : Invariant s) (hq : Quiet s s') : Invariant s' := by
  refine ⟨?_, ?_, ?_⟩
  · rw [hq.accepted, hq.written, hq.pending]
    exact h.accepted
  · rw [hq.written, hq.pending]
    exact h.closeLast
  · rw [hq.written, hq.pending]
    exact fun hc => hq.closed (h.closed hc)

theorem Quiet.kept_iff (hq : Quiet s s') (htask : s'.task = s.task) : s'.Kept ↔ s.Kept := by
  rw [Kept, Kept, hq.pending, htask]

/-- The write task is over from here on. -/
theorem Quiet.kept_iff_of_over (hq : Quiet s s') (hrunning : s.task = .running)
    (hover : s'.task ≠ .running) : s'.Kept ↔ s.Kept ∧ messages s.pending = [] := by
  rw [Kept, hq.pending]
  constructor
  · exact fun h => ⟨fun hover' => absurd hrunning hover', h hover⟩
  · exact fun h _ => h.2

theorem enqueue_of_closed {c : WsCommand} (hclosed : s.closed = true) : s.enqueue c = s :=
  if_pos hclosed

theorem pending_enqueue {c : WsCommand} (hopen : s.closed = false) :
    (s.enqueue c).pending = s.pending ++ [c] := by
  simp [enqueue, hopen, pending]

theorem Invariant.enqueue (h : Invariant s) (c : WsCommand) : Invariant (s.enqueue c) := by
  cases hopen : s.closed with
  | true =>
      rw [enqueue_of_closed hopen]
      exact h
  | false =>
      have hwritten : (s.enqueue c).written = s.written := by simp [WsSession.enqueue, hopen]
      have hnone : WsCommand.close ∉ s.written ++ s.pending := by
        intro hc
        rw [h.closed hc] at hopen
        cases hopen
      refine ⟨?_, ?_, ?_⟩
      · rw [hwritten, pending_enqueue hopen, ← List.append_assoc, messages_append, ← h.accepted]
        simp only [WsSession.enqueue, hopen]
        cases c <;> simp [messages]
      · rw [hwritten, pending_enqueue hopen, ← List.append_assoc]
        intro before after heq
        rcases List.eq_nil_or_concat after with rfl | ⟨init, z, rfl⟩
        · rfl
        · have heq' : (s.written ++ s.pending) ++ [c] = (before ++ .close :: init) ++ [z] := by
            simpa using heq
          rw [(List.append_inj' heq' rfl).1] at hnone
          simp at hnone
      · rw [hwritten, pending_enqueue hopen, ← List.append_assoc, List.mem_append,
          List.mem_singleton, or_iff_right hnone]
        rintro rfl
        simp [WsSession.enqueue, hopen]

theorem kept_enqueue {c : WsCommand} (hc : messages [c] = []) : (s.enqueue c).Kept ↔ s.Kept := by
  cases hopen : s.closed with
  | true => rw [enqueue_of_closed hopen]
  | false =>
      rw [Kept, Kept, pending_enqueue hopen, messages_append, hc, List.append_nil]
      simp [enqueue, hopen]

theorem kept_send (text : Str) :
    (s.enqueue (.send text)).Kept ↔ s.Kept ∧ ¬(s.closed = false ∧ s.task ≠ .running) := by
  cases hopen : s.closed with
  | true =>
      rw [enqueue_of_closed hopen]
      simp
  | false =>
      have htask : (s.enqueue (.send text)).task = s.task := by simp [enqueue, hopen]
      rw [Kept, Kept, pending_enqueue hopen, messages_append, htask]
      simp [messages]
      tauto

/-! ## Steps -/

theorem quiet_tearDown (pc : WsPc) : Quiet s (s.tearDown pc) := ⟨rfl, rfl, rfl, id⟩

theorem tearDown_task_ne (pc : WsPc) : (s.tearDown pc).task ≠ .running := by
  rw [tearDown]
  split <;> simp_all

theorem kept_tearDown (pc : WsPc) :
    (s.tearDown pc).Kept ↔ s.Kept ∧ ¬(s.task = .running ∧ messages s.pending ≠ []) := by
  by_cases hrunning : s.task = .running
  · rw [(quiet_tearDown pc).kept_iff_of_over hrunning (tearDown_task_ne pc)]
    simp [hrunning]
  · rw [(quiet_tearDown pc).kept_iff (by rw [tearDown, if_neg hrunning])]
    simp [hrunning]

theorem quiet_next (hs : s.next = some s') : Quiet s s' := by
  simp only [next] at hs
  split at hs <;> cases hs
  all_goals try exact ⟨rfl, rfl, rfl, id⟩
  · split
    · exact ⟨rfl, rfl, rfl, id⟩
    · exact ⟨rfl, rfl, rfl, id⟩
  · exact ⟨rfl, rfl, rfl, fun h => by simp [h]⟩

theorem next_task (hs : s.next = some s') (hpc : s.pc ≠ .closeHandlers) : s'.task = s.task := by
  simp only [next] at hs
  split at hs <;> cases hs
  all_goals try rfl
  · split <;> rfl
  · contradiction

theorem kept_next (hs : s.next = some s') :
    s'.Kept ↔ s.Kept ∧ ¬(s.pc = .closeHandlers ∧ s.task = .running ∧ messages s.pending ≠ []) := by
  by_cases hpc : s.pc = .closeHandlers
  · simp only [next, hpc] at hs
    cases hs
    rw [kept_tearDown]
    simp [hpc]
  · rw [(quiet_next hs).kept_iff (next_task hs hpc)]
    simp [hpc]

theorem quiet_receive {e : WsEvent} (hs : s.receive e = some s') : Quiet s s' := by
  simp only [receive] at hs
  (repeat' split at hs) <;> cases hs <;> exact ⟨rfl, rfl, rfl, fun h => by first | exact h | rfl⟩

theorem receive_task {e : WsEvent} (hs : s.receive e = some s') : s'.task = s.task := by
  simp only [receive] at hs
  (repeat' split at hs) <;> cases hs <;> rfl

theorem quiet_take {c : WsCommand} {cs : List WsCommand} (hwriting : s.writing = none)
    (hcommands : s.commands = c :: cs) :
    Quiet s { s with commands := cs, writing := some c } :=
  ⟨by simp [WsSession.pending, hwriting, hcommands], rfl, rfl, id⟩

theorem Invariant.wrote {c : WsCommand} {task : WriteTask} (h : Invariant s)
    (hwriting : s.writing = some c) :
    Invariant { s with writing := none, written := s.written ++ [c], task := task } := by
  have hsame : (s.written ++ [c]) ++ s.commands = s.written ++ s.pending := by
    simp [WsSession.pending, hwriting]
  refine ⟨?_, ?_, ?_⟩
  · change s.accepted = messages ((s.written ++ [c]) ++ s.commands)
    rw [hsame]
    exact h.accepted
  · change ∀ before after, (s.written ++ [c]) ++ s.commands = _ → _
    rw [hsame]
    exact h.closeLast
  · change _ ∈ (s.written ++ [c]) ++ s.commands → _
    rw [hsame]
    exact h.closed

theorem Invariant.kept_wrote {c : WsCommand} (h : Invariant s) (hrunning : s.task = .running)
    (hwriting : s.writing = some c) :
    Kept { s with
      writing := none, written := s.written ++ [c]
      task := if c = .close then .ended else .running } ↔ s.Kept := by
  refine iff_of_true (fun hover => ?_) fun hover => absurd hrunning hover
  by_cases hc : c = .close
  · subst hc
    have hlast := h.closeLast s.written s.commands (by simp [WsSession.pending, hwriting])
    simp [WsSession.pending, hlast]
  · simp [hc] at hover

theorem Invariant.of_quiet (h : Invariant s) (hq : Quiet s s') (htask : s'.task = s.task)
    (hkeeps : ¬s.Loses e) : Invariant s' ∧ (s'.Kept ↔ s.Kept ∧ ¬s.Loses e) :=
  ⟨h.quiet hq, (hq.kept_iff htask).trans (iff_self_and.mpr fun _ => hkeeps)⟩

/-- A step keeps the commands in order, and loses no message unless it is one of those that
do. -/
theorem Invariant.step (h : Invariant s) (hs : s.step e = some s') :
    Invariant s' ∧ (s'.Kept ↔ s.Kept ∧ ¬s.Loses e) := by
  cases e with
  | send text =>
      simp only [WsSession.step] at hs
      split at hs <;> cases hs
      exact ⟨h.enqueue _, kept_send text⟩
  | ping | close =>
      simp only [WsSession.step] at hs
      split at hs <;> cases hs
      exact ⟨h.enqueue _, (kept_enqueue rfl).trans (iff_self_and.mpr fun _ => id)⟩
  | yield | resume | throw | peerCloses =>
      simp only [WsSession.step] at hs
      split at hs <;> cases hs
      exact h.of_quiet ⟨rfl, rfl, rfl, id⟩ rfl id
  | next =>
      simp only [WsSession.step] at hs
      split at hs
      · cases hs
      · exact ⟨h.quiet (quiet_next hs), kept_next hs⟩
  | receive e =>
      simp only [WsSession.step] at hs
      split at hs
      · exact h.of_quiet (quiet_receive hs) (receive_task hs) id
      · cases hs
  | take =>
      simp only [WsSession.step] at hs
      split at hs
      · rename_i hready
        simp only [Bool.and_eq_true, Option.isNone_iff_eq_none] at hready
        split at hs
        · cases hs
        · rename_i c cs hcommands
          cases hs
          exact h.of_quiet (quiet_take hready.2 hcommands) rfl id
      · cases hs
  | wrote =>
      simp only [WsSession.step] at hs
      split at hs
      · rename_i hready
        simp only [Bool.and_eq_true, decide_eq_true_eq] at hready
        obtain ⟨c, hwriting, rfl⟩ := Option.map_eq_some_iff.mp hs
        exact ⟨h.wrote hwriting,
          (h.kept_wrote hready.2 hwriting).trans (iff_self_and.mpr fun _ => id)⟩
      · cases hs
  | writeFails =>
      simp only [WsSession.step] at hs
      split at hs
      · rename_i hready
        simp only [Bool.and_eq_true, decide_eq_true_eq] at hready
        cases hs
        have hq : Quiet s { s with task := .ended } := ⟨rfl, rfl, rfl, id⟩
        refine ⟨h.quiet hq, ?_⟩
        rw [hq.kept_iff_of_over hready.1.1.2 (by simp), Loses, not_not]
      · cases hs
  | unwind =>
      simp only [WsSession.step] at hs
      split at hs
      · cases hs
        exact ⟨h.quiet ⟨rfl, rfl, rfl, id⟩, kept_tearDown .unwound⟩
      · cases hs

/-! ## A task that runs out -/

/-- No message is accepted after the write task. -/
def Over (s : WsSession) : Prop :=
  s.task ≠ .running → s.closed = true ∨ s.pc = .left ∨ s.pc = .unwound

theorem Over.of_running (hrunning : s.task = .running) : Over s := fun hover =>
  absurd hrunning hover

theorem Over.mono (h : Over s) (htask : s'.task = s.task) (hclosed : s.closed → s'.closed)
    (hpc : s.pc = .left ∨ s.pc = .unwound → s'.pc = s.pc) : Over s' := by
  intro hover
  rw [htask] at hover
  rcases h hover with hc | hp
  · exact .inl (hclosed hc)
  · rw [hpc hp]
    exact .inr hp

theorem Over.enqueue (h : Over s) (c : WsCommand) : Over (s.enqueue c) := by
  cases hopen : s.closed with
  | true =>
      rw [enqueue_of_closed hopen]
      exact h
  | false =>
      exact h.mono (by simp [WsSession.enqueue, hopen]) (by simp [hopen])
        (by simp [WsSession.enqueue, hopen])

theorem Over.next (h : Over s) (hs : s.next = some s') : Over s' := by
  by_cases hpc : s.pc = .closeHandlers
  · simp only [WsSession.next, hpc] at hs
    cases hs
    exact fun _ => .inr (.inl rfl)
  · refine h.mono (next_task hs hpc) (quiet_next hs).closed ?_
    rintro (hleft | hunwound)
    · simp [WsSession.next, hleft] at hs
    · simp [WsSession.next, hunwound] at hs

theorem not_over_of_inScript (h : Over s) (hscript : s.inScript = true) :
    ¬(s.closed = false ∧ s.task ≠ .running) := by
  rintro ⟨hopen, hover⟩
  rcases h hover with hc | hpc | hpc
  · rw [hc] at hopen
    cases hopen
  · simp [inScript, hpc] at hscript
  · simp [inScript, hpc] at hscript

theorem Over.step (h : Over s) (hinv : Invariant s) (hout : s.RunsOut e)
    (hs : s.step e = some s') : Over s' := by
  cases e with
  | send | ping | close =>
      simp only [WsSession.step] at hs
      split at hs <;> cases hs
      exact h.enqueue _
  | yield | resume | throw | peerCloses =>
      simp only [WsSession.step] at hs
      split at hs
      · rename_i hready
        cases hs
        refine h.mono rfl id ?_
        rintro (hpc | hpc) <;> simp_all [inScript]
      · cases hs
  | next =>
      simp only [WsSession.step] at hs
      split at hs
      · cases hs
      · exact h.next hs
  | receive e =>
      simp only [WsSession.step] at hs
      split at hs
      · rename_i hpc
        exact h.mono (receive_task hs) (quiet_receive hs).closed (by simp [hpc])
      · cases hs
  | take =>
      simp only [WsSession.step] at hs
      split at hs
      · rename_i hready
        simp only [Bool.and_eq_true, decide_eq_true_eq] at hready
        split at hs
        · cases hs
        · cases hs
          exact .of_running hready.1.2
      · cases hs
  | wrote =>
      simp only [WsSession.step] at hs
      split at hs
      · obtain ⟨c, hwriting, rfl⟩ := Option.map_eq_some_iff.mp hs
        by_cases hc : c = .close
        · -- The close is accepted before it is written, and `closed` is set with it.
          subst hc
          exact fun _ => .inl (hinv.closed (by simp [WsSession.pending, hwriting]))
        · exact .of_running (if_neg hc)
      · cases hs
  | writeFails => exact hout.elim
  | unwind =>
      simp only [WsSession.step] at hs
      split at hs
      · cases hs
        exact fun _ => .inr (.inr rfl)
      · cases hs

/-- Where the task runs out, no step loses a message. -/
theorem RunsOut.not_loses (hout : s.RunsOut e) (hover : Over s) (hinv : Invariant s)
    (hs : s.step e = some s') : ¬s.Loses e := by
  have hspared : s.task = .ended ∨ s.accepted = [] →
      ¬(s.task = .running ∧ messages s.pending ≠ []) := by
    rintro (hended | hnone) ⟨hrunning, hpending⟩
    · rw [hended] at hrunning
      cases hrunning
    · rw [hinv.accepted, messages_append, List.append_eq_nil_iff] at hnone
      exact hpending hnone.2
  cases e with
  | next => exact fun hloses => hspared (hout hloses.1) hloses.2
  | unwind => exact hspared hout
  | writeFails => exact hout.elim
  | send text =>
      simp only [WsSession.step] at hs
      split at hs
      · rename_i hready
        simp only [Bool.and_eq_true] at hready
        exact not_over_of_inScript hover hready.1
      · cases hs
  | _ => exact id

theorem Invariant.init : Invariant new := ⟨rfl, by simp [new, WsSession.pending], by
  simp [new, WsSession.pending]⟩

/-- The messages that are written come first among those that were accepted. -/
theorem Invariant.prefix_accepted (h : Invariant s) : messages s.written <+: s.accepted := by
  rw [h.accepted, messages_append]
  exact List.prefix_append _ _

theorem Invariant.kept_iff (h : Invariant s) :
    s.Kept ↔ (s.task ≠ .running → messages s.written = s.accepted) := by
  rw [Kept, h.accepted, messages_append]
  simp

end WsSession

/-- In a run that leaves the write task its turns no step loses a message. -/
theorem runs_not_loses {es : List WsSession.Event} {s : WsSession}
    (h : wsSystem.Runs WsSession.RunsOut es s) : wsSystem.Runs (fun s e => ¬s.Loses e) es s := by
  refine h.imp (I := fun s => s.Invariant ∧ s.Over) ?_ ?_ ?_
  · rintro s rfl
    exact ⟨.init, .of_running rfl⟩
  · exact fun s e s' hI hout hs => ⟨(hI.1.step hs).1, hI.2.step hI.1 hout hs⟩
  · exact fun s e s' hI hout hs => hout.not_loses hI.2 hI.1 hs

/-- Messages are written in the order in which they were accepted, and before the close. In the
runs that tear no write task down before it has ended by itself they are all written before the
task is over; and so they are exactly in the runs that lose none, where no cleanup, no
unwinding and no write that the closed peer refuses meets a pending message. -/
theorem written_of_runsOut {es : List WsSession.Event} {s : WsSession}
    (h : wsSystem.AnyRun es s) :
    WsSession.messages s.written <+: s.accepted ∧
      (∀ before after, s.written = before ++ .close :: after → after = []) ∧
      (wsSystem.Runs WsSession.RunsOut es s → s.task ≠ .running →
        WsSession.messages s.written = s.accepted) ∧
      ((s.task ≠ .running → WsSession.messages s.written = s.accepted) ↔
        wsSystem.Runs (fun s e => ¬s.Loses e) es s) := by
  have hinv : s.Invariant := h.invariant (fun s hs => hs ▸ WsSession.Invariant.init)
    fun _ _ _ hinv _ hs => (hinv.step hs).1
  have hexact : (s.task ≠ .running → WsSession.messages s.written = s.accepted) ↔
      wsSystem.Runs (fun s e => ¬s.Loses e) es s := by
    rw [← hinv.kept_iff]
    refine h.holds_iff_avoids (I := WsSession.Invariant) ?_ ?_ ?_
    · rintro s rfl
      exact ⟨.init, fun hover => absurd rfl hover⟩
    · exact fun s e s' hinv hs => (hinv.step hs).1
    · exact fun s e s' hinv hs => (hinv.step hs).2
  refine ⟨hinv.prefix_accepted, fun before after heq => ?_, fun hout => ?_, hexact⟩
  · have hclose := hinv.closeLast before (after ++ s.pending) (by rw [heq]; simp)
    exact (List.append_eq_nil_iff.mp hclose).1
  · exact hexact.mpr (runs_not_loses hout)

/-- A message and a close in the callback: the cleanup comes before the write task has had a
turn. -/
theorem close_in_callback_loses : ¬∀ (es : List WsSession.Event) (s : WsSession),
    wsSystem.AnyRun es s → s.task ≠ .running → WsSession.messages s.written = s.accepted := by
  intro hall
  obtain ⟨s, hrun, htask, hwritten, haccepted⟩ : ∃ s, wsSystem.AnyRun
      [.send "hello".toList, .close, .next, .next, .next, .next] s ∧ s.task = .aborted ∧
      s.written = [] ∧ s.accepted = ["hello".toList] :=
    StepSystem.exists_run_of_exec _ (s := .new) rfl (by decide +kernel)
  have hlost := hall _ s hrun (by simp [htask])
  rw [hwritten, haccepted] at hlost
  cases hlost

/-- The message handler sends twice, and the close handler waits: the write task writes the two
messages and the close, and the cleanup meets a task that has ended. -/
theorem written_of_runsOut_waits : ∃ es s,
    s.written = [.send "a".toList, .send "b".toList, .close] ∧ s.task ≠ .running ∧
    wsSystem.Runs WsSession.RunsOut es s ∧
    WsSession.messages s.written = s.accepted := by
  obtain ⟨s, hrun, hwritten, htask⟩ : ∃ s, wsSystem.Runs
      (fun s e => decide (WsSession.RunsOut s e) = true)
      [.next, .next, .next, .next, .receive .message, .send "a".toList, .send "b".toList, .close,
        .next, .next, .yield, .take, .wrote, .take, .wrote, .take, .wrote, .resume, .next] s ∧
      s.written = [.send "a".toList, .send "b".toList, .close] ∧ s.task = .ended :=
    StepSystem.exists_runs_of_execWhen _ (s := .new) rfl (by decide +kernel)
  have hout : wsSystem.Runs WsSession.RunsOut _ s := hrun.mono fun _ _ => of_decide_eq_true
  have hover : s.task ≠ .running := by simp [htask]
  exact ⟨_, s, hwritten, hover, hout, (written_of_runsOut hrun.any).2.2.1 hout hover⟩

end K6Rs
