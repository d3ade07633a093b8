import K6Rs.Model.WsConnect

/-! # The end of `ws.connect`

The cleanup is the last statement, so a function of the script that throws leaves the session
behind. -/

namespace K6Rs

namespace WsConnect

def closeCall (fn : ℕ) : WsCall := ⟨.handler .close, fn⟩

/-- After the end the session is gone and its tasks with it; after a return each close handler was
called once, after all other functions. -/
structure Settled (s : WsConnect) : Prop where
  released : s.pc = .returned ∨ s.pc = .thrown → s.registered = false ∧ s.tasksRunning = false
  closeHandlers : s.pc = .returned → ∃ before,
    s.calls = before ++ (s.handlers .close).map closeCall ∧ ∀ c ∈ before, c.site ≠ .handler .close

/-- The first `n` close handlers were called, in order and after all else. -/
def CloseCalls (s : WsConnect) (n : ℕ) : Prop :=
  n ≤ (s.handlers .close).length ∧ ∃ before,
    s.calls = before ++ ((s.handlers .close).take n).map closeCall ∧ ∀ c ∈ before,
      c.site ≠ .handler .close

/-- How many close handlers were called. -/
def closeCalled (s : WsConnect) : ℕ :=
  match s.pc with
  | .atLoop (.handlers .close i) => i
  | .inside (.handlers .close i) => i + 1
  | .returned => (s.handlers .close).length
  | _ => 0

/-- The call has its session and has not ended. -/
def Live (s : WsConnect) : Prop := s.pc ≠ .opening ∧ s.pc ≠ .returned ∧ s.pc ≠ .thrown

/-- The session of a call that has not ended, and of one that has returned. -/
structure Invariant (s : WsConnect) : Prop where
  tasks : s.registered = false → s.tasksRunning = false
  opening : s.pc = .opening → s.registered = false
  returned : s.pc = .returned → s.registered = false
  live : s.Live → s.registered = true
  calls : s.pc ≠ .thrown → s.CloseCalls s.closeCalled

/-- No function has thrown. -/
def Kept (s : WsConnect) : Prop := s.pc = .thrown → s.registered = false

theorem Invariant.init : new.Invariant :=
  ⟨fun _ => rfl, fun _ => rfl, nofun, fun h => (h.1 rfl).elim, fun _ =>
    ⟨Nat.zero_le _, [], rfl, nofun⟩⟩

theorem Invariant.settled_iff {s : WsConnect} (h : s.Invariant) : s.Settled ↔ s.Kept := by
  constructor
  · intro hs hthrown
    exact (hs.released (.inr hthrown)).1
  · intro hkept
    constructor
    · rintro (hpc | hpc)
      · exact ⟨h.returned hpc, h.tasks (h.returned hpc)⟩
      · exact ⟨hkept hpc, h.tasks (hkept hpc)⟩
    · intro hpc
      obtain ⟨-, before, hcalls, hbefore⟩ := h.calls (by rw [hpc]; exact nofun)
      rw [closeCalled, hpc, List.take_length] at hcalls
      exact ⟨before, hcalls, hbefore⟩

/-! ## The calls -/

theorem CloseCalls.zero_of_eq {s s' : WsConnect} (h : s.CloseCalls 0)
    (hcalls : s'.calls = s.calls) :
    s'.CloseCalls 0 := by
  obtain ⟨-, before, heq, hbefore⟩ := h
  exact ⟨Nat.zero_le _, before, hcalls.trans heq, hbefore⟩

theorem CloseCalls.zero_append {s s' : WsConnect} (h : s.CloseCalls 0) {c : WsCall}
    (hcalls : s'.calls = s.calls ++ [c]) (hc : c.site ≠ .handler .close) : s'.CloseCalls 0 := by
  obtain ⟨-, before, heq, hbefore⟩ := h
  refine ⟨Nat.zero_le _, before ++ [c], ?_, ?_⟩
  · rw [hcalls, heq]
    simp
  · intro c' hc'
    rcases List.mem_append.mp hc' with hc' | hc'
    · exact hbefore c' hc'
    · rw [List.mem_singleton.mp hc']
      exact hc

theorem CloseCalls.succ {s s' : WsConnect} {i fn : ℕ} (h : s.CloseCalls i)
    (hfn : (s.handlers .close)[i]? = some fn) (hhandlers : s'.handlers = s.handlers)
    (hcalls : s'.calls = s.calls ++ [closeCall fn]) : s'.CloseCalls (i + 1) := by
  obtain ⟨-, before, heq, hbefore⟩ := h
  have hlt : i < (s.handlers .close).length := (List.getElem?_eq_some_iff.mp hfn).1
  refine ⟨by rw [hhandlers]; exact hlt, before, ?_, hbefore⟩
  rw [hcalls, heq, hhandlers, List.take_add_one, hfn, List.map_append, List.append_assoc]
  rfl

/-- Handlers that are registered later stand behind those that were called. -/
theorem CloseCalls.registered {s s' : WsConnect} {n : ℕ} (h : s.CloseCalls n)
    (hhandlers : s.handlers .close <+: s'.handlers .close) (hcalls : s'.calls = s.calls) :
    s'.CloseCalls n := by
  obtain ⟨hle, before, heq, hbefore⟩ := h
  obtain ⟨more, hmore⟩ := hhandlers
  refine ⟨?_, before, ?_, hbefore⟩
  · rw [← hmore, List.length_append]
    omega
  · rw [hcalls, heq, ← hmore, List.take_append_of_le_length hle]

/-! ## The steps -/

section

variable {s s' : WsConnect}

theorem Invariant.of_live (h : s.Invariant) (hs : s.Live)
    (hregistered : s'.registered = s.registered)
    (hs' : s'.Live) (hcalls : s'.CloseCalls s'.closeCalled) : s'.Invariant where
  tasks hfalse := by
    rw [hregistered, h.live hs] at hfalse
    cases hfalse
  opening hpc := (hs'.1 hpc).elim
  returned hpc := (hs'.2.1 hpc).elim
  live _ := hregistered.trans (h.live hs)
  calls _ := hcalls

theorem live_of_inScript (h : s.inScript = true) : s.Live := by
  rw [inScript] at h
  split at h
  · rename_i hpc
    exact ⟨by rw [hpc]; exact nofun, by rw [hpc]; exact nofun, by rw [hpc]; exact nofun⟩
  · rename_i hpc
    exact ⟨by rw [hpc]; exact nofun, by rw [hpc]; exact nofun, by rw [hpc]; exact nofun⟩
  · cases h

/-- The shim stays where it is while the script uses the socket. -/
theorem operate_frame {e : Event} (h : s.operate e = some s') :
    s'.pc = s.pc ∧ s'.registered = s.registered ∧ s'.calls = s.calls ∧
      s.handlers .close <+: s'.handlers .close := by
  cases e with
  | on event fn =>
      cases h
      refine ⟨rfl, rfl, rfl, ?_⟩
      by_cases hevent : event = .close
      · subst hevent
        simp
      · simp [Function.update_of_ne (Ne.symm hevent)]
  | opened | openFails | «return» | throw | advance | poll | receive | tasksEnd => cases h
  | send | ping | close | setTimeout | setInterval | clearTimeout | clearInterval =>
      cases h
      exact ⟨rfl, rfl, rfl, List.prefix_rfl⟩

theorem closeCalled_of_live (hs : s.Live) (hpc : s'.pc = s.pc) :
    s'.closeCalled = s.closeCalled := by
  rw [closeCalled, closeCalled, hpc]
  have hne := hs.2.1
  split <;> simp_all

theorem Invariant.operate (h : s.Invariant) (hscript : s.inScript = true) {e : Event}
    (hs : s.operate e = some s') : s'.Invariant := by
  obtain ⟨hpc, hregistered, hcalls, hhandlers⟩ := operate_frame hs
  have hlive := live_of_inScript hscript
  refine h.of_live hlive hregistered ⟨hpc ▸ hlive.1, hpc ▸ hlive.2.1, hpc ▸ hlive.2.2⟩ ?_
  rw [closeCalled_of_live hlive hpc]
  exact (h.calls hlive.2.2).registered hhandlers hcalls

theorem live_of_pc {pc : ConnectPc} (hpc : s.pc = pc)
    (h : pc ≠ .opening ∧ pc ≠ .returned ∧ pc ≠ .thrown) :
    s.Live := by
  rw [Live, hpc]
  exact h

theorem Invariant.advanceLoop (h : s.Invariant) {loop : ShimLoop} (hpc : s.pc = .atLoop loop) :
    (s.advanceLoop loop).Invariant := by
  have hlive : s.Live := live_of_pc hpc ⟨nofun, nofun, nofun⟩
  have hcalls := h.calls hlive.2.2
  rw [closeCalled, hpc] at hcalls
  cases loop with
  | handlers event i =>
      rw [WsConnect.advanceLoop]
      cases hfn : (s.handlers event)[i]? with
      | some fn =>
          cases event with
          | close => exact h.of_live hlive rfl ⟨nofun, nofun, nofun⟩ (hcalls.succ hfn rfl rfl)
          | «open» | message | binaryMessage | ping | pong | error | other =>
              exact h.of_live hlive rfl ⟨nofun, nofun, nofun⟩ (hcalls.zero_append rfl nofun)
      | none =>
          cases event with
          | close =>
              -- All close handlers were called.
              have hlength : i = (s.handlers .close).length :=
                Nat.le_antisymm hcalls.1 (List.getElem?_eq_none_iff.mp hfn)
              rw [hlength] at hcalls
              exact ⟨fun _ => rfl, nofun, fun _ => rfl, fun hlive' => (hlive'.2.1 rfl).elim,
                fun _ => hcalls⟩
          | «open» | message | binaryMessage | ping | pong | error | other =>
              exact h.of_live hlive rfl ⟨nofun, nofun, nofun⟩ (hcalls.zero_of_eq rfl)
  | timeouts i =>
      rw [WsConnect.advanceLoop]
      split
      · exact h.of_live hlive rfl ⟨nofun, nofun, nofun⟩ (hcalls.zero_of_eq rfl)
      · exact h.of_live hlive rfl ⟨nofun, nofun, nofun⟩ (hcalls.zero_of_eq rfl)
      · split
        · exact h.of_live hlive rfl ⟨nofun, nofun, nofun⟩ (hcalls.zero_append rfl nofun)
        · exact h.of_live hlive rfl ⟨nofun, nofun, nofun⟩ (hcalls.zero_of_eq rfl)
  | intervals i =>
      rw [WsConnect.advanceLoop]
      split
      · split
        · exact h.of_live hlive rfl ⟨nofun, nofun, nofun⟩ (hcalls.zero_of_eq rfl)
        · exact h.of_live hlive rfl ⟨nofun, nofun, nofun⟩ (hcalls.zero_of_eq rfl)
      · exact h.of_live hlive rfl ⟨nofun, nofun, nofun⟩ (hcalls.zero_of_eq rfl)
      · split
        · exact h.of_live hlive rfl ⟨nofun, nofun, nofun⟩ (hcalls.zero_append rfl nofun)
        · exact h.of_live hlive rfl ⟨nofun, nofun, nofun⟩ (hcalls.zero_of_eq rfl)

theorem advanceLoop_pc (s : WsConnect) (loop : ShimLoop) : (s.advanceLoop loop).pc ≠ .thrown := by
  cases loop with
  | handlers event i =>
      rw [WsConnect.advanceLoop]
      split
      · exact nofun
      · cases event with
        | «open» | message | binaryMessage | ping | pong | error | close | other => exact nofun
  | timeouts i =>
      rw [WsConnect.advanceLoop]
      split
      · exact nofun
      · exact nofun
      · split
        · exact nofun
        · exact nofun
  | intervals i =>
      rw [WsConnect.advanceLoop]
      split
      · cases hclosed : s.closed with
        | true => exact nofun
        | false => exact nofun
      · exact nofun
      · split
        · exact nofun
        · exact nofun

/-- A function of the script returns to the loop that has called it. -/
theorem Invariant.return (h : s.Invariant) {loop : ShimLoop} (hpc : s.pc = .inside loop) :
    Invariant { s with pc := .atLoop loop.succ } := by
  have hlive : s.Live := live_of_pc hpc ⟨nofun, nofun, nofun⟩
  have hcalls := h.calls hlive.2.2
  rw [closeCalled, hpc] at hcalls
  refine h.of_live hlive rfl ⟨nofun, nofun, nofun⟩ ?_
  cases loop with
  | timeouts i => exact hcalls.zero_of_eq rfl
  | intervals i => exact hcalls.zero_of_eq rfl
  | handlers event i =>
      cases event with
      | close => exact hcalls
      | «open» | message | binaryMessage | ping | pong | error | other =>
          exact hcalls.zero_of_eq rfl

theorem Invariant.receive (h : s.Invariant) (hpc : s.pc = .receiving) (e : WsEvent) :
    (s.receive e).Invariant := by
  have hlive : s.Live := live_of_pc hpc ⟨nofun, nofun, nofun⟩
  have hcalls := h.calls hlive.2.2
  rw [closeCalled, hpc] at hcalls
  cases e with
  | message | binaryMessage | ping | pong | close | error | timeout =>
      exact h.of_live hlive rfl ⟨nofun, nofun, nofun⟩ (hcalls.zero_of_eq rfl)

/-- One step of the shim, of the script or of the tasks; only a function that throws abandons the
session. -/
theorem Invariant.step (h : s.Invariant) {e : Event} (hs : connectSystem.step s e = some s') :
    s'.Invariant ∧ (s'.Kept ↔ s.Kept ∧ ¬e = .throw) := by
  have hkept (hne : s'.pc ≠ .thrown) (hbefore : s.pc ≠ .thrown) (he : e ≠ .throw) :
      s'.Kept ↔ s.Kept ∧ ¬e = .throw :=
    iff_of_true (fun hpc => (hne hpc).elim) ⟨fun hpc => (hbefore hpc).elim, he⟩
  cases e with
  | opened =>
      obtain ⟨hpc, hs⟩ := Option.ite_none_right_eq_some.mp hs
      cases hs
      have hcalls := h.calls (by rw [hpc]; exact fun h => by cases h)
      rw [closeCalled, hpc] at hcalls
      refine ⟨⟨(by rintro ⟨⟩), (by rintro ⟨⟩), (by rintro ⟨⟩), fun _ => rfl, fun _ =>
        hcalls.zero_append rfl (by rintro ⟨⟩)⟩, ?_⟩
      exact hkept (by rintro ⟨⟩) (by rw [hpc]; exact fun h => by cases h) (by rintro ⟨⟩)
  | openFails =>
      obtain ⟨hpc, hs⟩ := Option.ite_none_right_eq_some.mp hs
      cases hs
      refine ⟨⟨h.tasks, (by rintro ⟨⟩), (by rintro ⟨⟩), fun hlive => (hlive.2.2 rfl).elim,
        fun hne => (hne rfl).elim⟩, ?_⟩
      exact iff_of_true (fun _ => h.opening hpc)
        ⟨fun hthrown => (by rw [hpc] at hthrown; cases hthrown), (by rintro ⟨⟩)⟩
  | «return» =>
      change s.step .return = _ at hs
      rw [WsConnect.step] at hs
      split at hs
      · rename_i hpc
        cases hs
        have hlive : s.Live := live_of_pc hpc ⟨by rintro ⟨⟩, by rintro ⟨⟩, by rintro ⟨⟩⟩
        have hcalls := h.calls hlive.2.2
        rw [closeCalled, hpc] at hcalls
        exact ⟨h.of_live hlive rfl ⟨by rintro ⟨⟩, by rintro ⟨⟩, by rintro ⟨⟩⟩
          (hcalls.zero_of_eq rfl), hkept (by rintro ⟨⟩) hlive.2.2 (by rintro ⟨⟩)⟩
      · rename_i loop hpc
        cases hs
        exact ⟨h.return hpc, hkept (by rintro ⟨⟩) (by rw [hpc]; exact fun h => by cases h)
          (by rintro ⟨⟩)⟩
      · cases hs
  | throw =>
      obtain ⟨hscript, hs⟩ := Option.ite_none_right_eq_some.mp hs
      cases hs
      have hregistered := h.live (live_of_inScript hscript)
      refine ⟨⟨h.tasks, (by rintro ⟨⟩), (by rintro ⟨⟩), fun hlive => (hlive.2.2 rfl).elim,
        fun hne => (hne rfl).elim⟩, ?_⟩
      refine iff_of_false (fun hkept' => ?_) fun hbad => hbad.2 rfl
      cases hregistered.symm.trans (hkept' rfl)
  | advance =>
      change s.advance = _ at hs
      rw [advance] at hs
      split at hs
      · rename_i loop hpc
        cases hs
        exact ⟨h.advanceLoop hpc,
          hkept (advanceLoop_pc s loop) (by rw [hpc]; exact fun h => by cases h) (by rintro ⟨⟩)⟩
      · rename_i hpc
        obtain ⟨hclosed, hs⟩ := Option.ite_none_right_eq_some.mp hs
        cases hs
        have hlive : s.Live := live_of_pc hpc ⟨by rintro ⟨⟩, by rintro ⟨⟩, by rintro ⟨⟩⟩
        have hcalls := h.calls hlive.2.2
        rw [closeCalled, hpc] at hcalls
        exact ⟨h.of_live hlive rfl ⟨by rintro ⟨⟩, by rintro ⟨⟩, by rintro ⟨⟩⟩
          (hcalls.zero_of_eq rfl), hkept (by rintro ⟨⟩) hlive.2.2 (by rintro ⟨⟩)⟩
      · cases hs
  | poll now =>
      obtain ⟨hpc, hs⟩ := Option.ite_none_right_eq_some.mp hs
      cases hs
      have hlive : s.Live := live_of_pc (of_decide_eq_true (Bool.and_eq_true_iff.mp hpc).1)
        ⟨by rintro ⟨⟩, by rintro ⟨⟩, by rintro ⟨⟩⟩
      have hcalls := h.calls hlive.2.2
      rw [closeCalled, of_decide_eq_true (Bool.and_eq_true_iff.mp hpc).1] at hcalls
      exact ⟨h.of_live hlive rfl ⟨by rintro ⟨⟩, by rintro ⟨⟩, by rintro ⟨⟩⟩ (hcalls.zero_of_eq rfl),
        hkept (by rintro ⟨⟩) hlive.2.2 (by rintro ⟨⟩)⟩
  | receive e =>
      obtain ⟨hpc, hs⟩ := Option.ite_none_right_eq_some.mp hs
      cases hs
      refine ⟨h.receive hpc e, hkept ?_ (by rw [hpc]; exact fun h => by cases h) (by rintro ⟨⟩)⟩
      cases e with
      | message | binaryMessage | ping | pong | close | error | timeout => exact fun h => by cases h
  | tasksEnd =>
      cases hs
      exact ⟨⟨fun _ => rfl, h.opening, h.returned, h.live, h.calls⟩,
        ⟨fun hkept => ⟨hkept, (by rintro ⟨⟩)⟩, fun hkept => hkept.1⟩⟩
  | send | ping | close | on | setTimeout | setInterval | clearTimeout | clearInterval =>
      obtain ⟨hscript, hs⟩ := Option.ite_none_right_eq_some.mp hs
      have hlive := live_of_inScript hscript
      refine ⟨h.operate hscript hs, hkept ?_ hlive.2.2 (by rintro ⟨⟩)⟩
      rw [(operate_frame hs).1]
      exact hlive.2.2

end

/-- The session is released, and the close handlers are called, exactly when no function of the
script throws. -/
theorem settled_iff_not_throws {es : List Event} {s : WsConnect} (h : connectSystem.AnyRun es s) :
    s.Settled ↔ .throw ∉ es := by
  have hinv : s.Invariant := h.invariant (fun s hs => hs ▸ Invariant.init)
    fun _ _ _ hinv _ hs => (hinv.step hs).1
  have hkept : s.Kept ↔ connectSystem.Runs (fun _ e => ¬e = .throw) es s := by
    refine h.holds_iff_avoids (I := Invariant) ?_ ?_ ?_
    · rintro s rfl
      exact ⟨.init, nofun⟩
    · exact fun s e s' hinv hs => (hinv.step hs).1
    · exact fun s e s' hinv hs => (hinv.step hs).2
  rw [hinv.settled_iff, hkept]
  constructor
  · intro hrun hthrow
    exact hrun.forall_mem _ hthrow rfl
  · intro hnone
    exact h.restrict fun e he hthrow => hnone (hthrow ▸ he)

/-- A message handler and a close handler; the peer closes after a message. -/
theorem settled_iff_not_throws_message : ∃ (es : List Event) (s : WsConnect), s.pc = .returned ∧
    s.calls = [⟨.callback, 0⟩, ⟨.handler .message, 1⟩, ⟨.handler .close, 2⟩] ∧
      (s.Settled ↔ Event.throw ∉ es) := by
  obtain ⟨s, hrun, hpc, hcalls⟩ : ∃ s, connectSystem.AnyRun
      [.opened, .on .message 1, .on .close 2, .return, .advance, .poll 0, .advance, .advance,
        .receive .message, .advance, .return, .advance, .poll 1, .advance, .advance,
        .receive .close, .advance, .advance, .return, .advance] s ∧ s.pc = .returned ∧
      s.calls = [⟨.callback, 0⟩, ⟨.handler .message, 1⟩, ⟨.handler .close, 2⟩] :=
    StepSystem.exists_run_of_exec _ (s := .new) rfl (by decide +kernel)
  exact ⟨_, s, hpc, hcalls, settled_iff_not_throws hrun⟩

/-- The callback throws after the socket was opened. -/
theorem not_settled_of_throw : ∃ s, connectSystem.AnyRun [.opened, .throw] s ∧ s.pc = .thrown ∧
    ¬s.Settled := by
  obtain ⟨s, hrun, hpc, hregistered⟩ : ∃ s, connectSystem.AnyRun [.opened, .throw] s ∧
      s.pc = .thrown ∧ s.registered = true :=
    StepSystem.exists_run_of_exec _ (s := .new) rfl (by decide +kernel)
  refine ⟨s, hrun, hpc, fun h => ?_⟩
  cases hregistered.symm.trans (h.released (.inr hpc)).1

end WsConnect

end K6Rs
