import K6Rs.Verification.Coroutine.Steps

/-! A synchronous batch returns its results in the order of its requests, whatever the
order in which they came. -/

namespace K6Rs

namespace Batch

variable {μ ρ : Type} {batch batch' : Batch μ ρ}

/-- A request is either in flight, without a result and a log entry, or it has both. -/
structure Filling (batch : Batch μ ρ) : Prop where
  remaining : batch.remaining = batch.inFlight.length
  nodup : batch.inFlight.Nodup
  length : batch.results.length = batch.metas.length
  waiting : ∀ i ∈ batch.inFlight, batch.results[i]? = some none ∧ ∀ res, (i, res) ∉ batch.log
  answered : ∀ i < batch.metas.length, i ∉ batch.inFlight →
    ∃ res, batch.results[i]? = some (some res) ∧ ∀ r, (i, r) ∈ batch.log ↔ r = res

theorem filling_new (metas : List μ) : (new metas : Batch μ ρ).Filling := by
  refine ⟨by simp [new], List.nodup_range, by simp [new], ?_, ?_⟩
  · intro i hi
    simp only [new, List.mem_range] at hi
    simp [new, hi]
  · intro i hi hnot
    exact (hnot (List.mem_range.mpr hi)).elim

theorem Filling.done (hb : batch.Filling) {i : ℕ} {res : ρ} (h : batch.done i res = some batch') :
    batch'.Filling := by
  rw [Batch.done] at h
  split at h
  · rename_i hi
    cases h
    have hlt : i < batch.results.length := (List.getElem?_eq_some_iff.mp (hb.waiting i hi).1).1
    refine ⟨?_, hb.nodup.erase i, by simp [hb.length], ?_, ?_⟩
    · have := hb.remaining
      simp only [List.length_erase_of_mem hi]
      omega
    · intro j hj
      obtain ⟨hne, hj⟩ := (hb.nodup.mem_erase_iff).mp hj
      obtain ⟨hnone, hlog⟩ := hb.waiting j hj
      refine ⟨by rw [List.getElem?_set_ne (Ne.symm hne)]; exact hnone, ?_⟩
      simp [hlog, hne]
    · intro j hj hnot
      by_cases hji : j = i
      · subst hji
        refine ⟨res, by simp [hlt], ?_⟩
        simp [(hb.waiting j hi).2]
      · have hold : j ∉ batch.inFlight := fun h => hnot ((hb.nodup.mem_erase_iff).mpr ⟨hji, h⟩)
        obtain ⟨res', hres, hlog⟩ := hb.answered j hj hold
        refine ⟨res', by rw [List.getElem?_set_ne (Ne.symm hji)]; exact hres, ?_⟩
        simp [hlog, hji]
  · cases h

/-- The output pairs each request with the one response that came for it. -/
def Ordered (batch : Batch μ ρ) : Prop :=
  ∃ out, batch.output = some out ∧ out.length = batch.metas.length ∧
    ∀ i md, batch.metas[i]? = some md →
      ∃ res, out[i]? = some (res, md) ∧ ∀ r, (i, r) ∈ batch.log ↔ r = res

/-- Collecting results that are all there. -/
private theorem mapM_id_of_forall_isSome {l : List (Option ρ)} (h : ∀ o ∈ l, o.isSome = true) :
    ∃ l', l.mapM id = some l' ∧ l = l'.map some := by
  induction l with
  | nil => exact ⟨[], rfl, rfl⟩
  | cons o rest ih =>
      obtain ⟨l', hmap, hrest⟩ := ih fun o ho => h o (List.mem_cons_of_mem _ ho)
      obtain ⟨r, rfl⟩ := Option.isSome_iff_exists.mp (h o List.mem_cons_self)
      exact ⟨r :: l', by simp [hmap], by simp [hrest]⟩

theorem Filling.ordered (hb : batch.Filling) (hzero : batch.remaining = 0) : batch.Ordered := by
  have hempty : batch.inFlight = [] := List.eq_nil_of_length_eq_zero (hb.remaining ▸ hzero)
  have hanswered : ∀ i < batch.metas.length,
      ∃ res, batch.results[i]? = some (some res) ∧ ∀ r, (i, r) ∈ batch.log ↔ r = res :=
    fun i hi => hb.answered i hi (by simp [hempty])
  have hall : ∀ o ∈ batch.results, o.isSome = true := by
    intro o ho
    obtain ⟨i, hi⟩ := List.mem_iff_getElem?.mp ho
    have hlt : i < batch.metas.length := hb.length ▸ (List.getElem?_eq_some_iff.mp hi).1
    obtain ⟨res, hres, _⟩ := hanswered i hlt
    rw [hi] at hres
    rw [Option.some.inj hres]
    rfl
  obtain ⟨results, hmap, hresults⟩ := mapM_id_of_forall_isSome hall
  have hlength : results.length = batch.metas.length := by
    rw [← hb.length, hresults, List.length_map]
  refine ⟨results.zip batch.metas, by simp [output, hmap], by simp [hlength], ?_⟩
  intro i md hmd
  have hlt : i < batch.metas.length := (List.getElem?_eq_some_iff.mp hmd).1
  obtain ⟨res, hres, hlog⟩ := hanswered i hlt
  refine ⟨res, ?_, hlog⟩
  rw [hresults, List.getElem?_map] at hres
  have hres' : results[i]? = some res := by simpa using hres
  rw [List.getElem?_zip_eq_some]
  exact ⟨hres', hmd⟩

end Batch

namespace Coroutine

variable {μ ρ : Type} {s s' : Coroutine μ ρ} {e : CoroutineEvent μ ρ}

/-- A batch the coroutine is parked on is being filled. -/
def Filling (s : Coroutine μ ρ) : Prop :=
  ∀ site batch, s.pc = .awaitAll site batch → batch.Filling

theorem filling_new : (new : Coroutine μ ρ).Filling := by
  intro site batch h
  cases h

theorem Filling.step (hs : s.Filling) (h : Steps s e s') : s'.Filling := by
  intro site batch hbatch
  cases h with
  | fireHard | queue | settle | react | register => exact hs site batch hbatch
  | @awaitAll site' metas hpc =>
      cases hbatch
      exact Batch.filling_new metas
  | @batchDone site' old new i res hpc hdone =>
      cases hbatch
      exact (hs _ _ hpc).done hdone
  | initEnd =>
      simp only at hbatch
      split at hbatch
      · cases hbatch
      · cases hbatch
  | _ => cases hbatch

end Coroutine

end K6Rs
