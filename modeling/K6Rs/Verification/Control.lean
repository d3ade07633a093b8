import K6Rs.Model.Control

/-! # Status patches and the waits for the start

A stop cancels the run under the lock that a waiter takes to look at the execution, so a
look after the stop finds the run cancelled. -/

namespace K6Rs

namespace Control

variable {n : ℕ} {reader : JsonReader}

@[simp] theorem setWaiter_execution (c : Control n) (w : Fin n) (pc : WaitPc) :
    (c.setWaiter w pc).execution = c.execution := rfl

@[simp] theorem setWaiter_cancel (c : Control n) (w : Fin n) (pc : WaitPc) :
    (c.setWaiter w pc).cancel = c.cancel := rfl

@[simp] theorem setWaiter_granted (c : Control n) (w : Fin n) (pc : WaitPc) :
    (c.setWaiter w pc).granted = c.granted := rfl

/-- A notification touches nothing but the waiters. -/
structure Notifies (c c' : Control n) : Prop where
  execution : c'.execution = c.execution
  cancel : c'.cancel = c.cancel
  abort : c'.abort = c.abort
  granted : c'.granted = c.granted

theorem notifies_notifyOne (c : Control n) : Notifies c c.notifyOne := by
  rw [notifyOne]
  split
  · exact ⟨rfl, rfl, rfl, rfl⟩
  · exact ⟨rfl, rfl, rfl, rfl⟩

/-! ## What a patch does -/

/-- The fields of a patch are applied in their order, and an error ends it. -/
inductive Applies (c : Control n) (patch : Patch) : Control n → Except ApiError Unit → Prop where
  | stop (h : patch.stopped = true) : Applies c patch c.stop (.ok ())
  | keep (h : patch.stopped = false) (hp : patch.paused = none) (hs : patch.scale = false) :
      Applies c patch c (.ok ())
  | rejected (e) (h : patch.stopped = false) (he : e.status = 500) : Applies c patch c (.error e)
  | resume (reply) (h : patch.stopped = false) (hstarted : c.execution.started = none)
      (hpaused : c.execution.paused = true)
      (hreply : reply = .ok () ∨ ∃ e, reply = .error e ∧ e.status = 500) :
      Applies c patch
        (notifyOne { c with execution := { c.execution with paused := false } }) reply

theorem applies_apply (c : Control n) (patch : Patch) :
    Applies c patch (c.apply patch).1 (c.apply patch).2 := by
  rw [apply]
  split
  · rename_i hstop
    exact .stop hstop
  · rename_i hstop
    simp only [Bool.not_eq_true] at hstop
    split
    · rename_i hpaused
      cases hscale : patch.scale with
      | false => exact .keep hstop hpaused hscale
      | true => exact .rejected _ hstop rfl
    · rename_i paused hpaused
      split
      · rename_i hopen
        simp only [Bool.and_eq_true, Option.isNone_iff_eq_none] at hopen
        cases paused with
        | true => exact .rejected _ hstop rfl
        | false =>
            cases hscale : patch.scale with
            | false => exact .resume _ hstop hopen.1 hopen.2 (.inl rfl)
            | true => exact .resume _ hstop hopen.1 hopen.2 (.inr ⟨_, rfl, rfl⟩)
      · exact .rejected _ hstop rfl

/-- A body is malformed, or its patch is applied. -/
theorem patch_cases (reader : JsonReader) (c : Control n) (body : List UInt8) :
    (∃ detail, parsePatch reader body = .error detail ∧
      c.patch reader body = (c, .error ⟨400, "Invalid data".toList, detail⟩)) ∨
    ∃ p, parsePatch reader body = .ok p ∧
      Applies c p (c.patch reader body).1 (c.patch reader body).2 := by
  rw [patch]
  cases hparse : parsePatch reader body with
  | error detail => exact .inl ⟨detail, rfl, rfl⟩
  | ok p => exact .inr ⟨p, rfl, applies_apply c p⟩

theorem stop_execution (c : Control n) :
    c.stop.execution = { c.execution with stopped := true } :=
  (notifies_notifyOne _).execution

theorem stop_cancel (c : Control n) : c.stop.cancel = true :=
  (notifies_notifyOne _).cancel

theorem stop_granted (c : Control n) : c.stop.granted = c.granted :=
  (notifies_notifyOne _).granted

/-! ## What a step can change -/

/-- The change of a step: the stop stays, a cancelled run grants no start and stays
cancelled, and a pause can end before the start. -/
structure Progress (c c' : Control n) : Prop where
  stopped : c.execution.stopped = true → c'.execution.stopped = true
  cancel : c.cancel = true → c'.cancel = true
  granted : c.cancel = true → c'.granted = c.granted
  paused : c'.execution.paused = c.execution.paused ∨
    (c.execution.paused = true ∧ c'.execution.paused = false ∧ c.execution.started = none)

theorem Progress.of_same {c c' : Control n} (hexecution : c'.execution = c.execution)
    (hcancel : c.cancel = true → c'.cancel = true) (hgranted : c'.granted = c.granted) :
    Progress c c' where
  stopped := hexecution ▸ id
  cancel := hcancel
  granted := fun _ => hgranted
  paused := .inl (hexecution ▸ rfl)

theorem Applies.progress {c c' : Control n} {patch : Patch} {reply : Except ApiError Unit}
    (h : Applies c patch c' reply) : Progress c c' := by
  cases h with
  | stop h =>
      refine ⟨fun _ => ?_, fun _ => stop_cancel c, fun _ => stop_granted c, .inl ?_⟩
      · rw [stop_execution]
      · rw [stop_execution]
  | keep h hp hs => exact .of_same rfl id rfl
  | rejected e h he => exact .of_same rfl id rfl
  | resume _ h hstarted hpaused hreply =>
      have hn := notifies_notifyOne { c with execution := { c.execution with paused := false } }
      refine ⟨?_, ?_, fun _ => hn.granted, .inr ⟨hpaused, ?_, hstarted⟩⟩
      · rw [hn.execution]
        exact id
      · rw [hn.cancel]
        exact id
      · rw [hn.execution]

theorem progress_look {c c' : Control n} {w : Fin n} {now : ℕ}
    (h : c.step reader (.look w now) = some c') : Progress c c' := by
  simp only [step] at h
  split at h
  · split at h
    · cases h
      exact .of_same rfl id rfl
    · rename_i hcancel
      split at h
      · cases h
        exact ⟨id, id, fun hc => absurd hc hcancel, .inl rfl⟩
      · cases h
        exact .of_same rfl id rfl
  · cases h

theorem progress_giveUp {c c' : Control n} {w : Fin n}
    (h : c.step reader (.giveUp w) = some c') : Progress c c' := by
  simp only [step] at h
  split at h
  · split at h
    · cases h
      exact .of_same rfl id rfl
    · cases h
      exact .of_same rfl id rfl
    · cases h
      have hn := notifies_notifyOne (c.setWaiter w .idle)
      refine .of_same hn.execution ?_ hn.granted
      rw [hn.cancel]
      exact id
    · cases h
  · cases h

theorem progress_step {c c' : Control n} {e : Event n} (h : c.step reader e = some c') :
    Progress c c' := by
  cases e with
  | patch body =>
      cases h
      rcases c.patch_cases reader body with ⟨detail, hparse, heq⟩ | ⟨p, hparse, happlies⟩
      · rw [heq]
        exact .of_same rfl id rfl
      · exact happlies.progress
  | wait w =>
      simp only [step] at h
      split at h <;> cases h
      exact .of_same rfl id rfl
  | look w now => exact progress_look h
  | poll w =>
      simp only [step] at h
      split at h
      · split at h <;> cases h <;> exact .of_same rfl id rfl
      · cases h
  | awake w =>
      simp only [step] at h
      split at h <;> cases h
      exact .of_same rfl id rfl
  | giveUp w => exact progress_giveUp h
  | phase status =>
      cases h
      exact ⟨id, id, fun _ => rfl, .inl rfl⟩
  | finish now =>
      cases h
      exact ⟨id, id, fun _ => rfl, .inl rfl⟩
  | interrupt =>
      cases h
      exact ⟨id, fun _ => rfl, fun _ => rfl, .inl rfl⟩

theorem progress_exec {c c' : Control n} {fs : List (Event n)}
    (h : (controlSystem n reader).execWhen (fun _ _ => true) c fs = some c')
    (hstopped : c.execution.stopped = true) (hcancel : c.cancel = true) :
    c'.granted = c.granted ∧ c'.execution.stopped = true := by
  induction fs generalizing c with
  | nil =>
      cases h
      exact ⟨rfl, hstopped⟩
  | cons f fs ih =>
      rw [StepSystem.execWhen, if_pos rfl] at h
      obtain ⟨t, hstep, hrest⟩ := Option.bind_eq_some_iff.mp h
      have hprogress := progress_step hstep
      obtain ⟨hgranted, hstays⟩ := ih hrest (hprogress.stopped hstopped) (hprogress.cancel hcancel)
      exact ⟨hgranted.trans (hprogress.granted hcancel), hstays⟩

/-! ## The guarantees of the control surface -/

/-- What holds of the events from a state on. -/
structure Guarantees (reader : JsonReader) (c : Control n) : Prop where
  /-- After a stop no wait returns `true`, and the stop stays. -/
  stop : ∀ body p fs c', parsePatch reader body = .ok p → p.stopped = true →
    (controlSystem n reader).execWhen (fun _ _ => true) (c.patch reader body).1 fs = some c' →
    c'.granted = (c.patch reader body).1.granted ∧ c'.execution.stopped = true
  stopped : ∀ e c', c.step reader e = some c' →
    c.execution.stopped = true → c'.execution.stopped = true
  /-- A pause only ends, and only before the start. -/
  paused : ∀ e c', c.step reader e = some c' →
    c'.execution.paused = c.execution.paused ∨
      (c.execution.paused = true ∧ c'.execution.paused = false ∧ c.execution.started = none)
  malformed : ∀ body e, (c.patch reader body).2 = .error e → e.status = 400 →
    (c.patch reader body).1 = c
  /-- A patch that is rejected later has at most ended the pause. -/
  rejected : ∀ body e, (c.patch reader body).2 = .error e → e.status = 500 →
    (c.patch reader body).1.cancel = c.cancel ∧ (c.patch reader body).1.abort = c.abort ∧
      ((c.patch reader body).1.execution = c.execution ∨
        (c.execution.paused = true ∧
          (c.patch reader body).1.execution = { c.execution with paused := false }))

theorem patch_malformed (reader : JsonReader) (c : Control n) (body : List UInt8) (e : ApiError)
    (h : (c.patch reader body).2 = .error e) (he : e.status = 400) :
    (c.patch reader body).1 = c := by
  rcases c.patch_cases reader body with ⟨detail, hparse, heq⟩ | ⟨p, hparse, happlies⟩
  · rw [heq]
  · rw [h] at happlies
    generalize (c.patch reader body).1 = c' at happlies
    cases happlies with
    | rejected _ hstop hstatus => rfl
    | resume _ hstop hstarted hpaused hreply =>
        obtain hok | ⟨e', he', hstatus⟩ := hreply
        · cases hok
        · cases he'
          rw [he] at hstatus
          cases hstatus

theorem patch_rejected (reader : JsonReader) (c : Control n) (body : List UInt8) (e : ApiError)
    (h : (c.patch reader body).2 = .error e) :
    (c.patch reader body).1.cancel = c.cancel ∧ (c.patch reader body).1.abort = c.abort ∧
      ((c.patch reader body).1.execution = c.execution ∨
        (c.execution.paused = true ∧
          (c.patch reader body).1.execution = { c.execution with paused := false })) := by
  rcases c.patch_cases reader body with ⟨detail, hparse, heq⟩ | ⟨p, hparse, happlies⟩
  · rw [heq]
    exact ⟨rfl, rfl, .inl rfl⟩
  · rw [h] at happlies
    generalize (c.patch reader body).1 = c' at happlies
    cases happlies with
    | rejected _ hstop hstatus => exact ⟨rfl, rfl, .inl rfl⟩
    | resume _ hstop hstarted hpaused hreply =>
        have hn := notifies_notifyOne { c with execution := { c.execution with paused := false } }
        exact ⟨hn.cancel, hn.abort, .inr ⟨hpaused, hn.execution⟩⟩

theorem patch_stops {reader : JsonReader} (c : Control n) {body : List UInt8} {p : Patch}
    (hparse : parsePatch reader body = .ok p) (hstop : p.stopped = true) :
    (c.patch reader body).1 = c.stop := by
  rw [patch, hparse]
  simp only [apply, hstop, if_true]

/-- The guarantees hold in every state, and so after every sequence of patches, waits and
ends. -/
theorem guarantees (reader : JsonReader) (c : Control n) : c.Guarantees reader where
  stop := by
    intro body p fs c' hparse hstop hexec
    have hpatch := c.patch_stops hparse hstop
    rw [hpatch] at hexec ⊢
    exact progress_exec hexec (by rw [stop_execution]) (stop_cancel c)
  stopped := fun e c' hs => (progress_step hs).stopped
  paused := fun e c' hs => (progress_step hs).paused
  malformed := patch_malformed reader c
  rejected := fun body e h _ => patch_rejected reader c body e h

end Control

end K6Rs
