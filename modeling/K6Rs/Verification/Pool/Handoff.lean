import K6Rs.Model.Arrival
import K6Rs.Verification.Pool.Accounts

/-! How arrivals reach the VUs. A VU that waits for its next iteration is in one place
at a time: its idle report is on the channel, or in the queue, or its dispatch is on
the way. -/

namespace K6Rs

namespace ArrivalState

variable {n : ℕ} {curve : ArrivalCurve} {s s' : ArrivalState n} {e : ArrivalEvent n}

/-! ## What a step does -/

/-- The VU waits on its dispatch channel. -/
def Parked (s : ArrivalState n) (v : Fin n) : Prop := ∃ k, (s.pool.vus v).pc = .deciding k .parked

/-- The steps by what they do to the queues. -/
inductive Steps (curve : ArrivalCurve) (s : ArrivalState n) :
    ArrivalEvent n → ArrivalState n → Prop where
  | cancel : Steps curve s .cancel { s with cancelled := true }
  | fireHard : Steps curve s .fireHard { s with pool := s.pool.fireHard }
  /-- A VU that does not wait for a dispatch goes on without an iteration. -/
  | quiet {e v pe p} : s.pool.step v pe = some p → pe ≠ .answer true → ¬s.Parked v →
      (e.Stray s ↔ pe = .hardCancel ∧ s.pool.Stray v) → Steps curve s e { s with pool := p }
  | report {v k p} : (s.pool.vus v).pc = .deciding k .reporting → s.coordinator ≠ .gone →
      s.pool.step v (.move .parked) = some p →
      Steps curve s (.report v) { s with idleChannel := s.idleChannel ++ [v], pool := p }
  | deliver {v r p} : s.Parked v → s.runNext v = r + 1 → s.pool.step v (.answer true) = some p →
      Steps curve s (.receive v)
        { s with runNext := Function.update s.runNext v r, pool := p }
  | closed {v p} : s.runNext v = 0 → s.coordinator = .gone →
      s.pool.step v (.answer false) = some p → Steps curve s (.receive v) { s with pool := p }
  /-- The coordinator takes an idle report off the channel. -/
  | take {e id rest} : e = .collect ∨ e = .drain → s.coordinator ≠ .gone →
      s.idleChannel = id :: rest →
      Steps curve s e { s with idle := s.idle ++ [id], idleChannel := rest }
  | nobody : s.coordinator = .startup → s.idle = [] → s.cancelled = true ∨ s.idleChannel = [] →
      Steps curve s .startupEnd s.exit
  | begin : s.coordinator = .startup → s.idle ≠ [] →
      Steps curve s .startupEnd { s with coordinator := .top, ready := true }
  | abandon : s.coordinator = .top → s.cancelled = true → Steps curve s .loopTop s.exit
  /-- The coordinator goes on through its loop. -/
  | advance {e pc elapsed} : e = .loopTop ∨ (∃ t, e = .drained t) ∨ e = .dispatchEnd →
      s.coordinator ≠ .gone → pc ≠ .gone → pc ≠ .startup → s.coordinator ≠ .startup →
      Steps curve s e { s with coordinator := pc, elapsed := elapsed }
  | fire {elapsed} : s.coordinator = .dispatching elapsed →
      (s.dispatched : ℚ) + 1 ≤ target curve elapsed → Steps curve s .dispatch s.fire
  | expired {elapsed} : s.coordinator = .dispatching elapsed →
      ¬(s.dispatched : ℚ) + 1 ≤ target curve elapsed → curve.totalDuration ≤ elapsed →
      Steps curve s .dispatchEnd s.exit

private theorem withPool_eq_some {p : Option (Pool n ArrivalLoc)} (h : s.withPool p = some s') :
    ∃ p', p = some p' ∧ s' = { s with pool := p' } := by
  obtain ⟨p', hp, rfl⟩ := Option.map_eq_some_iff.mp h
  exact ⟨p', hp, rfl⟩

/-- Only the control moves a VU that decides. -/
private theorem not_parked_of_step {v : Fin n} {pe : Vu.Event ArrivalLoc}
    {p : Pool n ArrivalLoc} (h : s.pool.step v pe = some p) (hmove : ∀ loc, pe ≠ .move loc)
    (hanswer : ∀ go, pe ≠ .answer go) : ¬s.Parked v := by
  rintro ⟨k, hpc⟩
  obtain ⟨vu, d, hsteps, rfl⟩ := Pool.step_eq_some h
  cases hsteps <;> simp_all

private theorem steps_report {v : Fin n} (h : s.report v = some s') :
    Steps curve s (.report v) s' := by
  rw [report] at h
  split at h
  · rename_i k hpc
    split at h
    · obtain ⟨p, hp, rfl⟩ := withPool_eq_some h
      refine .quiet hp (by simp) ?_ (by simp [ArrivalEvent.Stray])
      rintro ⟨j, hj⟩
      rw [hpc] at hj
      cases hj
    · rename_i hgone
      obtain ⟨p, hp, rfl⟩ := withPool_eq_some h
      exact .report hpc hgone hp
  · cases h

private theorem steps_receive {v : Fin n} (h : s.receive v = some s') :
    Steps curve s (.receive v) s' := by
  rw [receive] at h
  split at h
  · rename_i k hpc
    split at h
    · rename_i r hr
      obtain ⟨p, hp, rfl⟩ := withPool_eq_some h
      exact .deliver ⟨k, hpc⟩ hr hp
    · rename_i hr
      split at h
      · rename_i hgone
        obtain ⟨p, hp, rfl⟩ := withPool_eq_some h
        exact .closed hr hgone hp
      · cases h
  · cases h

private theorem steps_startupEnd (h : s.step curve .startupEnd = some s') :
    Steps curve s .startupEnd s' := by
  simp only [step] at h
  split at h
  · rename_i hguard
    split at h
    · rename_i hidle
      cases h
      refine .nobody hguard.1 hidle ?_
      rcases hguard.2 with hall | hcancelled | hempty
      · rw [hidle] at hall
        obtain rfl := Nat.le_zero.mp hall
        exact .inr (List.eq_nil_iff_forall_not_mem.mpr fun v _ => v.elim0)
      · exact .inl hcancelled
      · exact .inr hempty
    · rename_i hidle
      cases h
      exact .begin hguard.1 hidle
  · cases h

private theorem steps_loopTop (h : s.step curve .loopTop = some s') :
    Steps curve s .loopTop s' := by
  simp only [step] at h
  split at h
  · rename_i hpc
    split at h
    · rename_i hcancelled
      cases h
      exact .abandon hpc hcancelled
    · cases h
      exact .advance (.inl rfl) (by simp [hpc]) (by simp) (by simp) (by simp [hpc])
  · cases h

private theorem steps_dispatchEnd (h : s.step curve .dispatchEnd = some s') :
    Steps curve s .dispatchEnd s' := by
  simp only [step] at h
  split at h
  · rename_i elapsed hpc
    split at h
    · cases h
    · rename_i hdue
      split at h
      · rename_i htotal
        cases h
        exact .expired hpc hdue htotal
      · cases h
        exact .advance (.inr (.inr rfl)) (by simp [hpc]) (by simp) (by simp) (by simp [hpc])
  · cases h

theorem steps_of_step (h : s.step curve e = some s') : Steps curve s e s' := by
  cases e with
  | cancel => cases h; exact .cancel
  | fireHard => cases h; exact .fireHard
  | report v => exact steps_report h
  | receive v => exact steps_receive h
  | build v | buildFailed v | tally v | boundary v outcome | finish v | hardCancel v =>
      obtain ⟨p, hp, rfl⟩ := withPool_eq_some h
      exact .quiet hp (by simp) (not_parked_of_step hp (by simp) (by simp))
        (by simp [ArrivalEvent.Stray])
  | collect =>
      simp only [step] at h
      split at h
      · rename_i hpc hchannel
        split at h
        · cases h
          exact .take (.inl rfl) (by simp [hpc]) hchannel
        · cases h
      · cases h
  | drain =>
      simp only [step] at h
      split at h
      · rename_i hpc hchannel
        cases h
        exact .take (.inr rfl) (by simp [hpc]) hchannel
      · cases h
  | startupEnd => exact steps_startupEnd h
  | loopTop => exact steps_loopTop h
  | drained elapsed =>
      simp only [step] at h
      split at h
      · rename_i hguard
        cases h
        exact .advance (.inr (.inl ⟨elapsed, rfl⟩)) (by simp [hguard.1]) (by simp) (by simp)
          (by simp [hguard.1])
      · cases h
  | dispatch =>
      simp only [step] at h
      split at h
      · rename_i elapsed hpc
        split at h
        · rename_i hdue
          cases h
          exact .fire hpc hdue
        · cases h
      · cases h
  | dispatchEnd => exact steps_dispatchEnd h

theorem steps_of_arrivalSystem (h : (arrivalSystem n curve).step s e = some s') :
    Steps curve s e s' :=
  steps_of_step h

/-! ## One place at a time -/

/-- In how many places the id of a VU occurs: idle queue, idle channel and its
undelivered dispatches. -/
def places (s : ArrivalState n) (v : Fin n) : ℕ :=
  s.idle.count v + s.idleChannel.count v + s.runNext v

/-- Every VU is in at most one place, and only while it waits for a dispatch; the
queues end with the coordinator. -/
structure Placed (s : ArrivalState n) : Prop where
  once : ∀ v, s.places v ≤ 1
  parked : ∀ v, s.places v ≠ 0 → s.Parked v
  gone : s.coordinator = .gone → s.idle = [] ∧ s.idleChannel = []

theorem placed_new : (new : ArrivalState n).Placed := by
  refine ⟨fun _ => Nat.zero_le _, fun _ h => (h rfl).elim, fun _ => ⟨rfl, rfl⟩⟩

/-- A step of a VU that is in no place leaves the places as they are. -/
private theorem Placed.of_step {v : Fin n} {pe : Vu.Event ArrivalLoc} {p : Pool n ArrivalLoc}
    (hs : s.Placed) (hp : s.pool.step v pe = some p) (hv : s.places v = 0) :
    ({ s with pool := p } : ArrivalState n).Placed := by
  refine ⟨hs.once, ?_, hs.gone⟩
  intro u hu
  have hne : u ≠ v := by
    intro h
    subst h
    exact hu hv
  have hparked := hs.parked u hu
  obtain ⟨vu, d, hsteps, rfl⟩ := Pool.step_eq_some hp
  simpa [Parked, Function.update_of_ne hne] using hparked

private theorem Placed.report {v : Fin n} {k : ℕ} {p : Pool n ArrivalLoc} (hs : s.Placed)
    (hpc : (s.pool.vus v).pc = .deciding k .reporting) (hgone : s.coordinator ≠ .gone)
    (hp : s.pool.step v (.move .parked) = some p) :
    ({ s with idleChannel := s.idleChannel ++ [v], pool := p } : ArrivalState n).Placed := by
  have hnone : s.places v = 0 := by
    by_contra hplaces
    obtain ⟨j, hj⟩ := hs.parked v hplaces
    rw [hpc] at hj
    cases hj
  have hplaces : ∀ u, ({ s with idleChannel := s.idleChannel ++ [v], pool := p } :
      ArrivalState n).places u = s.places u + if v = u then 1 else 0 := by
    intro u
    simp only [places, List.count_append, List.count_singleton, beq_iff_eq]
    omega
  refine ⟨?_, ?_, fun h => (hgone h).elim⟩
  · intro u
    have hu := hs.once u
    rw [hplaces]
    split
    · rename_i huv
      subst huv
      omega
    · omega
  · intro u hu
    obtain ⟨vu, d, hsteps, rfl⟩ := Pool.step_eq_some hp
    by_cases huv : u = v
    · subst huv
      cases hsteps with
      | @move j loc loc' hpc => exact ⟨j, by simp⟩
    · rw [hplaces, if_neg (Ne.symm huv)] at hu
      have hparked := hs.parked u hu
      simpa [Parked, Function.update_of_ne huv] using hparked

private theorem Placed.deliver {v : Fin n} {r : ℕ} {p : Pool n ArrivalLoc} (hs : s.Placed)
    (hr : s.runNext v = r + 1) (hp : s.pool.step v (.answer true) = some p) :
    ({ s with runNext := Function.update s.runNext v r, pool := p } : ArrivalState n).Placed := by
  have honce := hs.once v
  rw [places] at honce
  refine ⟨?_, ?_, hs.gone⟩
  · intro u
    have hu := hs.once u
    simp only [places, Function.update_apply] at hu ⊢
    split
    · rename_i huv
      subst huv
      omega
    · exact hu
  · intro u hu
    have hne : u ≠ v := by
      intro huv
      subst huv
      simp only [places, Function.update_self] at hu
      omega
    simp only [places, Function.update_of_ne hne] at hu
    have hparked := hs.parked u hu
    obtain ⟨vu, d, hsteps, rfl⟩ := Pool.step_eq_some hp
    simpa [Parked, Function.update_of_ne hne] using hparked

private theorem Placed.take {id : Fin n} {rest : List (Fin n)} (hs : s.Placed)
    (hgone : s.coordinator ≠ .gone) (hchannel : s.idleChannel = id :: rest) :
    ({ s with idle := s.idle ++ [id], idleChannel := rest } : ArrivalState n).Placed := by
  have hplaces : ∀ u, ({ s with idle := s.idle ++ [id], idleChannel := rest } :
      ArrivalState n).places u = s.places u := by
    intro u
    simp only [places, hchannel, List.count_append, List.count_cons, List.count_nil]
    omega
  refine ⟨fun u => ?_, fun u hu => ?_, fun h => (hgone h).elim⟩
  · rw [hplaces]
    exact hs.once u
  · rw [hplaces] at hu
    exact hs.parked u hu

private theorem Placed.exit (hs : s.Placed) : s.exit.Placed := by
  have hle : ∀ u, s.exit.places u ≤ s.places u := by
    intro u
    simp only [places, ArrivalState.exit, List.count_nil]
    omega
  refine ⟨fun u => (hle u).trans (hs.once u), ?_, fun _ => ⟨rfl, rfl⟩⟩
  intro u hu
  have hu' := hle u
  exact hs.parked u (by omega)

/-- The VU at the head of the idle queue is alive, so an arrival reaches it. -/
theorem Placed.not_gone {id : Fin n} {rest : List (Fin n)} (hs : s.Placed)
    (hidle : s.idle = id :: rest) : (s.pool.vus id).pc ≠ .gone := by
  obtain ⟨k, hk⟩ := hs.parked id (by simp [places, hidle])
  simp [hk]

private theorem Placed.fire {elapsed : ℕ} (hs : s.Placed)
    (hpc : s.coordinator = .dispatching elapsed) : s.fire.Placed := by
  rw [ArrivalState.fire]
  split
  · rename_i id rest hidle
    rw [if_neg (hs.not_gone hidle)]
    have hplaces : ∀ u, ({ s with
        dispatched := s.dispatched + 1, idle := rest, handedTo := s.handedTo ++ [id]
        runNext := Function.update s.runNext id (s.runNext id + 1) } :
        ArrivalState n).places u = s.places u := by
      intro u
      change s.idle = _ at hidle
      simp only [places, hidle, List.count_cons, Function.update_apply, beq_iff_eq]
      by_cases hu : u = id
      · subst hu
        simp
        omega
      · simp [hu, Ne.symm hu]
    refine ⟨fun u => ?_, fun u hu => ?_, fun h => ?_⟩
    · rw [hplaces]
      exact hs.once u
    · rw [hplaces] at hu
      exact hs.parked u hu
    · change s.coordinator = _ at h
      rw [hpc] at h
      cases h
  · exact ⟨hs.once, hs.parked, hs.gone⟩

theorem Placed.step (hs : s.Placed) (h : Steps curve s e s') : s'.Placed := by
  cases h with
  | cancel | fireHard => exact ⟨hs.once, hs.parked, hs.gone⟩
  | quiet hp hgrant hparked hstray =>
      apply hs.of_step hp
      by_contra hplaces
      exact hparked (hs.parked _ hplaces)
  | report hpc hgone hp => exact hs.report hpc hgone hp
  | deliver hparked hr hp => exact hs.deliver hr hp
  | closed hr hgone hp =>
      obtain ⟨hidle, hchannel⟩ := hs.gone hgone
      exact hs.of_step hp (by simp [places, hr, hidle, hchannel])
  | take he hgone hchannel => exact hs.take hgone hchannel
  | nobody hpc hidle => exact hs.exit
  | begin hpc hidle => exact ⟨hs.once, hs.parked, fun h => by cases h⟩
  | abandon hpc hcancelled => exact hs.exit
  | advance he hgone hpc hstart => exact ⟨hs.once, hs.parked, fun h => (hpc h).elim⟩
  | fire hpc hdue => exact hs.fire hpc
  | expired hpc hdue htotal => exact hs.exit

theorem placed_of_anyRun {es : List (ArrivalEvent n)} (h : (arrivalSystem n curve).AnyRun es s) :
    s.Placed :=
  h.invariant (fun _ hs => hs ▸ placed_new) fun _ _ _ hplaced _ hs =>
    hplaced.step (steps_of_arrivalSystem hs)

/-! ## What the started iterations say about the dispatches -/

/-- Every dispatch that a VU was handed is still in its channel or started an
iteration. -/
def Delivered (s : ArrivalState n) : Prop :=
  ∀ v, s.handedTo.count v = (s.pool.vus v).started + s.runNext v

private theorem Delivered.of_step {v : Fin n} {pe : Vu.Event ArrivalLoc} {p : Pool n ArrivalLoc}
    (hs : s.Delivered) (hp : s.pool.step v pe = some p) (hgrant : pe ≠ .answer true) :
    ∀ u, s.handedTo.count u = (p.vus u).started + s.runNext u := by
  intro u
  obtain ⟨vu, d, hsteps, rfl⟩ := Pool.step_eq_some hp
  rw [hs u]
  by_cases hu : u = v
  · subst hu
    simp [hsteps.started.2 hgrant]
  · simp [Function.update_of_ne hu]

private theorem Delivered.deliver {v : Fin n} {r : ℕ} {p : Pool n ArrivalLoc} (hs : s.Delivered)
    (hr : s.runNext v = r + 1) (hp : s.pool.step v (.answer true) = some p) :
    ∀ u, s.handedTo.count u = (p.vus u).started + Function.update s.runNext v r u := by
  intro u
  obtain ⟨vu, d, hsteps, rfl⟩ := Pool.step_eq_some hp
  rw [hs u]
  by_cases hu : u = v
  · subst hu
    simp only [Function.update_self, hsteps.started.1 rfl, hr]
    omega
  · simp [Function.update_of_ne hu]

private theorem Delivered.fire (hs : s.Delivered) (hplaced : s.Placed) : s.fire.Delivered := by
  rw [ArrivalState.fire]
  split
  · rename_i id rest hidle
    rw [if_neg (hplaced.not_gone hidle)]
    intro u
    have hu := hs u
    simp only [List.count_append, List.count_singleton, Function.update_apply, beq_iff_eq]
    by_cases huid : u = id
    · subst huid
      simp
      omega
    · simp [huid, Ne.symm huid]
      omega
  · exact hs

theorem Delivered.step (hs : s.Delivered) (hplaced : s.Placed) (h : Steps curve s e s') :
    s'.Delivered := by
  cases h with
  | quiet hp hgrant hparked hstray => exact hs.of_step hp hgrant
  | report hpc hgone hp => exact hs.of_step hp (by simp)
  | deliver hparked hr hp => exact hs.deliver hr hp
  | closed hr hgone hp => exact hs.of_step hp (by simp)
  | fire hpc hdue => exact hs.fire hplaced
  | _ => exact hs

theorem delivered_of_anyRun {es : List (ArrivalEvent n)} (h : (arrivalSystem n curve).AnyRun es s) :
    s.Delivered := by
  have hboth : s.Placed ∧ s.Delivered := by
    apply h.invariant (I := fun s => s.Placed ∧ s.Delivered)
    · intro s hs
      subst hs
      exact ⟨placed_new, fun _ => rfl⟩
    · intro s e s' hinv _ hs
      have hsteps := steps_of_arrivalSystem hs
      exact ⟨hinv.1.step hsteps, hinv.2.step hinv.1 hsteps⟩
  exact hboth.2

theorem accounts_of_anyRun {es : List (ArrivalEvent n)} (h : (arrivalSystem n curve).AnyRun es s) :
    s.pool.Accounts := by
  apply h.invariant (I := fun s => s.pool.Accounts)
  · intro s hs
    subst hs
    exact Pool.accounts_new
  · intro s e s' hacc _ hs
    cases steps_of_arrivalSystem hs with
    | quiet hp | report _ _ hp | deliver _ _ hp | closed _ _ hp => exact hacc.step hp
    | fireHard => exact ⟨hacc.balanced, hacc.booked⟩
    | fire =>
        rw [ArrivalState.fire]
        split
        · split
          · exact hacc
          · exact hacc
        · exact hacc
    | _ => exact hacc

/-- What holds of the hand-off in every reachable state. -/
structure HandedOff (s : ArrivalState n) : Prop where
  once : ∀ v, s.idle.count v + s.idleChannel.count v + s.runNext v ≤ 1
  idle : ∀ v ∈ s.idle, s.Parked v ∧ s.runNext v = 0
  /-- Of the dispatches a VU was handed all but at most one have ended. -/
  outstanding : ∀ v, s.handedTo.count v ≤ (s.pool.vus v).tallied + 1

end ArrivalState

open ArrivalState

theorem arrival_handedOff {n : ℕ} {curve : ArrivalCurve} {s : ArrivalState n}
    {es : List (ArrivalEvent n)} (hrun : (arrivalSystem n curve).AnyRun es s) : s.HandedOff := by
  have hplaced := placed_of_anyRun hrun
  refine ⟨hplaced.once, ?_, ?_⟩
  · intro v hv
    have hcount : 0 < s.idle.count v := List.count_pos_iff.mpr hv
    have honce := hplaced.once v
    rw [places] at honce
    refine ⟨hplaced.parked v ?_, by omega⟩
    rw [places]
    omega
  · intro v
    have hdelivered := delivered_of_anyRun hrun v
    have hstarted := ((accounts_of_anyRun hrun).balanced v).started
    have honce := hplaced.once v
    rw [places] at honce
    by_cases hr : s.runNext v = 0
    · have hinFlight : Vu.inFlight (s.pool.vus v).pc ≤ 1 := by
        rw [Vu.inFlight.eq_def]
        split <;> omega
      omega
    · -- A VU with a dispatch in its channel waits for it, so no iteration is in flight.
      obtain ⟨k, hk⟩ := hplaced.parked v (by rw [places]; omega)
      rw [hk] at hstarted
      simp only [Vu.inFlight] at hstarted
      omega

/-- Two arrivals for two VUs, of which the second has yet to take its own. -/
private def handOff : List (ArrivalEvent 2) :=
  [.build 0, .build 1, .tally 1, .report 1, .tally 0, .report 0, .collect, .collect, .startupEnd,
    .loopTop, .drained (10 ^ 9), .dispatch, .dispatch, .receive 1]

theorem arrival_handedOff_handOff :
    ∃ s : ArrivalState 2, s.HandedOff ∧ s.handedTo = [1, 0] ∧ s.pool.started = 1 := by
  obtain ⟨s, hrun, hhanded, hstarted⟩ :=
    (arrivalSystem 2 (.constant 2 (10 ^ 9) (10 ^ 9))).exists_run_of_exec handOff
      (P := fun s => s.handedTo = [1, 0] ∧ s.pool.started = 1) rfl
      (by decide +kernel)
  exact ⟨s, arrival_handedOff hrun, hhanded, hstarted⟩

end K6Rs
