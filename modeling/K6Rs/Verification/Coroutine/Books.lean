import K6Rs.Verification.Coroutine.Steps
import Mathlib.Data.List.Count

/-! The books of a VU: which operations are registered, pending or completed, how many
are outstanding, and what metadata they wait for. -/

namespace K6Rs

variable {μ ρ : Type}

namespace VuShared

/-! ## Taking the metadata -/

/-- The driver loop finds the metadata of distinct results and leaves that of the
others. -/
theorem resolveAll_of_nodup {comp : List (ℕ × ρ)} {metas : KeyMap ℕ μ}
    (hnodup : (comp.map Prod.fst).Nodup)
    (hfound : ∀ op ∈ comp.map Prod.fst, metas.find? op ≠ none) :
    ∃ resolved metas', resolveAll comp metas = some (resolved, metas') ∧
      resolved.map Prod.fst = comp.map Prod.fst ∧
      (∀ r ∈ resolved, metas.find? r.1 = some r.2) ∧
      ∀ op, metas'.find? op = if op ∈ comp.map Prod.fst then none else metas.find? op := by
  induction comp generalizing metas with
  | nil => exact ⟨[], metas, rfl, rfl, by simp, by simp⟩
  | cons c rest ih =>
      obtain ⟨op, res⟩ := c
      simp only [List.map_cons, List.nodup_cons, List.mem_cons] at hnodup hfound
      obtain ⟨md, hmd⟩ := Option.ne_none_iff_exists'.mp (hfound op (.inl rfl))
      have hrest : ∀ o ∈ rest.map Prod.fst, (metas.remove op).find? o = metas.find? o := by
        intro o ho
        rw [KeyMap.find?_remove, if_neg]
        rintro rfl
        exact hnodup.1 ho
      have hfound' : ∀ o ∈ rest.map Prod.fst, (metas.remove op).find? o ≠ none := by
        intro o ho
        rw [hrest o ho]
        exact hfound o (.inr ho)
      obtain ⟨resolved, metas', hsome, hkeys, hown, hleft⟩ := ih hnodup.2 hfound'
      refine ⟨(op, md) :: resolved, metas', by simp [resolveAll, hmd, hsome], by simp [hkeys],
        ?_, ?_⟩
      · intro r hr
        rcases List.mem_cons.mp hr with rfl | hr
        · exact hmd
        · have hmem : r.1 ∈ rest.map Prod.fst := hkeys ▸ List.mem_map_of_mem hr
          rw [← hrest _ hmem]
          exact hown r hr
      · intro o
        rw [hleft, KeyMap.find?_remove]
        by_cases ho : o = op
        · simp [ho]
        · simp only [ho, if_false, List.map_cons, List.mem_cons, false_or]

/-- In how many of the books an operation stands. -/
def live (shared : VuShared μ ρ) (pending : List ℕ) (op : ℕ) : ℕ :=
  shared.registered.count op + pending.count op + (shared.completed.map Prod.fst).count op

theorem live_registerAsync (shared : VuShared μ ρ) (md : μ) (pending : List ℕ) (op : ℕ) :
    (shared.registerAsync md).live pending op =
      shared.live pending op + if op = shared.nextOp then 1 else 0 := by
  simp only [live, registerAsync, List.count_append, List.count_singleton, beq_iff_eq,
    eq_comm (a := shared.nextOp)]
  omega

theorem live_ne_zero_of_completed {shared : VuShared μ ρ} (pending : List ℕ) {op : ℕ}
    (hop : op ∈ shared.completed.map Prod.fst) : shared.live pending op ≠ 0 := by
  have hpos := List.count_pos_iff.mpr hop
  rw [live]
  omega

end VuShared

/-- The books agree with what was registered and resolved: every operation is in one
place, the counter counts those not resolved, and these belong to the current iteration
and have their metadata. -/
structure Books (shared : VuShared μ ρ) (pending : List ℕ) (iterations : ℕ)
    (registrations : List (μ × ℕ)) (resolutions : List (ℕ × μ × ℕ)) : Prop where
  outstanding : shared.outstanding =
    shared.registered.length + pending.length + shared.completed.length
  nextOp : shared.nextOp = registrations.length
  once : ∀ op, shared.live pending op + (resolutions.map Prod.fst).count op =
    if op < registrations.length then 1 else 0
  metas : ∀ op, shared.asyncMeta.find? op =
    if shared.live pending op = 0 then none else registrations[op]?.map Prod.fst
  current : ∀ op, shared.live pending op ≠ 0 → ∃ md, registrations[op]? = some (md, iterations)
  resolved : ∀ r ∈ resolutions, registrations[r.1]? = some r.2

namespace Books

variable {shared : VuShared μ ρ} {pending : List ℕ} {iterations : ℕ}
  {registrations : List (μ × ℕ)} {resolutions : List (ℕ × μ × ℕ)}

theorem new : Books (VuShared.new : VuShared μ ρ) [] 0 [] [] := by
  refine ⟨rfl, rfl, fun op => rfl, fun op => rfl, ?_, by simp⟩
  intro op h
  exact (h rfl).elim

/-- What only moves operations from one place to another keeps the books. -/
private theorem move (h : Books shared pending iterations registrations resolutions)
    {registered pending' : List ℕ} {completed : List (ℕ × ρ)}
    (hlength : registered.length + pending'.length + completed.length =
      shared.registered.length + pending.length + shared.completed.length)
    (hlive : ∀ op, ({ shared with registered, completed } : VuShared μ ρ).live pending' op =
      shared.live pending op) :
    Books { shared with registered, completed } pending' iterations registrations resolutions where
  outstanding := by
    have hsum := h.outstanding
    simp only
    omega
  nextOp := h.nextOp
  once op := by rw [hlive]; exact h.once op
  metas op := by rw [hlive]; exact h.metas op
  current op hop := by rw [hlive] at hop; exact h.current op hop
  resolved := h.resolved

theorem yield (h : Books shared pending iterations registrations resolutions) :
    Books { shared with registered := [] } (pending ++ shared.registered) iterations
      registrations resolutions := by
  apply h.move
  · simp only [List.length_append, List.length_nil]
    omega
  · intro op
    simp only [VuShared.live, List.count_append, List.count_nil]
    omega

theorem queue (h : Books shared pending iterations registrations resolutions) {op : ℕ} (res : ρ)
    (hop : op ∈ pending) :
    Books { shared with completed := shared.completed ++ [(op, res)] } (pending.erase op)
      iterations registrations resolutions := by
  apply h.move
  · have hpos := List.length_pos_of_mem hop
    rw [List.length_erase_of_mem hop, List.length_append, List.length_singleton]
    omega
  · intro o
    simp only [VuShared.live, List.map_append, List.map_cons, List.map_nil, List.count_append,
      List.count_singleton, List.count_erase, beq_iff_eq]
    have hcount := List.count_pos_iff.mpr hop
    split
    · rename_i ho
      subst ho
      omega
    · omega

theorem lt_of_live (h : Books shared pending iterations registrations resolutions) {op : ℕ}
    (hop : shared.live pending op ≠ 0) : op < registrations.length := by
  have honce := h.once op
  split at honce
  · assumption
  · omega

theorem register (h : Books shared pending iterations registrations resolutions) (md : μ) :
    Books (shared.registerAsync md) pending iterations (registrations ++ [(md, iterations)])
      resolutions := by
  have hlive := shared.live_registerAsync md pending
  have hold : ∀ op, shared.live pending op ≠ 0 →
      (registrations ++ [(md, iterations)])[op]? = registrations[op]? :=
    fun op hop => List.getElem?_append_left (h.lt_of_live hop)
  have hlast : (registrations ++ [(md, iterations)])[shared.nextOp]? = some (md, iterations) := by
    rw [h.nextOp, List.getElem?_append_right (Nat.le_refl _)]
    simp
  refine ⟨?_, ?_, ?_, ?_, ?_, ?_⟩
  · have := h.outstanding
    simp only [VuShared.registerAsync, List.length_append, List.length_singleton]
    omega
  · simp [VuShared.registerAsync, h.nextOp]
  · intro op
    have honce := h.once op
    have hnextOp := h.nextOp
    rw [hlive, List.length_append, List.length_singleton]
    split at honce <;> split <;> split <;> omega
  · intro op
    rw [hlive, VuShared.registerAsync]
    by_cases hop : op = shared.nextOp
    · subst hop
      rw [KeyMap.find?_upsert_self, hlast]
      simp
    · rw [KeyMap.find?_upsert_of_ne _ _ hop, h.metas, if_neg hop, Nat.add_zero]
      split
      · rfl
      · rename_i hne
        rw [hold op hne]
  · intro op hop
    rw [hlive] at hop
    by_cases hnext : op = shared.nextOp
    · subst hnext
      exact ⟨md, hlast⟩
    · rw [if_neg hnext, Nat.add_zero] at hop
      rw [hold op hop]
      exact h.current op hop
  · intro r hr
    have hr' := h.resolved r hr
    rw [List.getElem?_append_left (List.getElem?_eq_some_iff.mp hr').1]
    exact hr'

/-- With nothing outstanding the books are empty. -/
theorem clean (h : Books shared pending iterations registrations resolutions)
    (hzero : shared.outstanding = 0) :
    shared.registered = [] ∧ pending = [] ∧ shared.completed = [] ∧ shared.asyncMeta = ∅ := by
  have hsum := h.outstanding
  have hregistered : shared.registered = [] := List.eq_nil_of_length_eq_zero (by omega)
  have hpending : pending = [] := List.eq_nil_of_length_eq_zero (by omega)
  have hcompleted : shared.completed = [] := List.eq_nil_of_length_eq_zero (by omega)
  refine ⟨hregistered, hpending, hcompleted, KeyMap.eq_empty_of_find? fun op => ?_⟩
  rw [h.metas, if_pos]
  simp [VuShared.live, hregistered, hpending, hcompleted]

/-- A reset of empty books. -/
theorem reset (h : Books shared pending iterations registrations resolutions)
    (hzero : shared.outstanding = 0) :
    Books shared.reset pending (iterations + 1) registrations resolutions := by
  obtain ⟨hregistered, hpending, hcompleted, hmetas⟩ := h.clean hzero
  have hreset : shared.reset = shared := by
    obtain ⟨nextOp, outstanding, registered, completed, asyncMeta⟩ := shared
    simp only at hzero hregistered hcompleted hmetas
    simp [VuShared.reset, hzero, hregistered, hcompleted, hmetas]
  rw [hreset]
  refine ⟨h.outstanding, h.nextOp, h.once, h.metas, ?_, h.resolved⟩
  intro op hop
  simp [VuShared.live, hregistered, hpending, hcompleted] at hop

theorem nodup_completed (h : Books shared pending iterations registrations resolutions) :
    (shared.completed.map Prod.fst).Nodup := by
  rw [List.nodup_iff_count_le_one]
  intro op
  have honce := h.once op
  rw [VuShared.live] at honce
  split at honce <;> omega

/-- The driver loop resolves every result, with the metadata of its operation. -/
theorem resolveAll (h : Books shared pending iterations registrations resolutions) :
    ∃ resolved metas', VuShared.resolveAll shared.completed shared.asyncMeta =
        some (resolved, metas') ∧
      resolved.map Prod.fst = shared.completed.map Prod.fst ∧
      (∀ r ∈ resolved, registrations[r.1]? = some (r.2, iterations)) ∧
      ∀ op, metas'.find? op =
        if op ∈ shared.completed.map Prod.fst then none else shared.asyncMeta.find? op := by
  have hmeta : ∀ op ∈ shared.completed.map Prod.fst,
      ∃ md, registrations[op]? = some (md, iterations) ∧ shared.asyncMeta.find? op = some md := by
    intro op hop
    have hlive := VuShared.live_ne_zero_of_completed pending hop
    obtain ⟨md, hmd⟩ := h.current op hlive
    exact ⟨md, hmd, by rw [h.metas, if_neg hlive, hmd]; rfl⟩
  have hfound : ∀ op ∈ shared.completed.map Prod.fst, shared.asyncMeta.find? op ≠ none := by
    intro op hop
    obtain ⟨md, _, hmd⟩ := hmeta op hop
    rw [hmd]
    exact Option.some_ne_none md
  obtain ⟨resolved, metas', hsome, hkeys, hown, hleft⟩ :=
    VuShared.resolveAll_of_nodup h.nodup_completed hfound
  refine ⟨resolved, metas', hsome, hkeys, ?_, hleft⟩
  intro r hr
  obtain ⟨md, hmd, hfound⟩ := hmeta r.1 (hkeys ▸ List.mem_map_of_mem hr)
  have hr' := hown r hr
  rw [hfound] at hr'
  rw [hmd, Option.some.inj hr']

theorem drain (h : Books shared pending iterations registrations resolutions)
    {resolved : List (ℕ × μ)} {metas : KeyMap ℕ μ}
    (hsome : VuShared.resolveAll shared.completed shared.asyncMeta = some (resolved, metas)) :
    Books
      ({ shared with
        outstanding := shared.outstanding - shared.completed.length
        completed := []
        asyncMeta := metas } : VuShared μ ρ)
      pending iterations registrations
      (resolutions ++ resolved.map fun (op, md) => (op, md, iterations)) := by
  obtain ⟨resolved', metas', hsome', hkeys, hown, hleft⟩ := h.resolveAll
  rw [hsome] at hsome'
  obtain ⟨rfl, rfl⟩ := Prod.mk.inj (Option.some.inj hsome')
  have hlive : ∀ op, ({ shared with
      outstanding := shared.outstanding - shared.completed.length
      completed := []
      asyncMeta := metas } : VuShared μ ρ).live pending op +
        (shared.completed.map Prod.fst).count op = shared.live pending op := by
    intro op
    simp [VuShared.live]
  have hresolved : (resolved.map fun (op, md) => (op, md, iterations)).map Prod.fst =
      shared.completed.map Prod.fst := by
    rw [← hkeys, List.map_map]
    rfl
  refine ⟨?_, h.nextOp, ?_, ?_, ?_, ?_⟩
  · have := h.outstanding
    simp only [List.length_nil]
    omega
  · intro op
    have honce := h.once op
    have := hlive op
    rw [List.map_append, hresolved, List.count_append]
    omega
  · intro op
    have honce := h.once op
    have hop := hlive op
    simp only [hleft, h.metas op]
    split
    · rename_i hmem
      have hpos := List.count_pos_iff.mpr hmem
      rw [if_pos]
      split at honce <;> omega
    · rename_i hmem
      have hzero := List.count_eq_zero_of_not_mem hmem
      rw [hzero, Nat.add_zero] at hop
      rw [hop]
  · intro op hop
    have := hlive op
    exact h.current op (by omega)
  · intro r hr
    rcases List.mem_append.mp hr with hr | hr
    · exact h.resolved r hr
    · obtain ⟨⟨op, md⟩, hmem, rfl⟩ := List.mem_map.mp hr
      exact hown _ hmem

end Books

end K6Rs
