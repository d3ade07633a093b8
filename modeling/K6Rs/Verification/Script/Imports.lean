import K6Rs.Library.Walk
import K6Rs.Model.PrepareScript

/-! The inlining of local modules. A call of the rewriter knows only the files of its own lines, so
the modules that are put in are the ends of all walks along imports: each once exactly when no
module ends two walks. -/

namespace K6Rs

section

variable {ι : Type} (fs : FileSystem ι) (isAlphanumeric : Char → Bool)

/-! ## One line -/

def LineInlines (scriptDir : Option PathBuf) (line : Str) (p : PathBuf) : Prop :=
  startsWith (Str.trim line) "import " = true ∧
    ∃ path extension, importLine fs scriptDir (Str.trim line) = some (.inline path p extension)

/-- The line panics: a lone quote stands where the path of the import should be. -/
def LineBreaks (scriptDir : Option PathBuf) (line : Str) : Prop :=
  startsWith (Str.trim line) "import " = true ∧ importLine fs scriptDir (Str.trim line) = none

variable {fs isAlphanumeric} {prepare : Str → Option PathBuf → Option (Prepared ι)}
  {scriptDir : Option PathBuf} {s s' : PrepareState ι} {line : Str}

/-- What a line can do to the files and the modules of the call. -/
inductive LineStep (fs : FileSystem ι) (prepare : Str → Option PathBuf → Option (Prepared ι))
    (scriptDir : Option PathBuf) (s s' : PrepareState ι) (line : Str) : Prop where
  | kept (hfiles : s'.inlinedFiles = s.inlinedFiles) (hinlined : s'.inlined = s.inlined)
      (hsound : ¬LineBreaks fs scriptDir line)
      (hseen : ∀ p, LineInlines fs scriptDir line p → p ∈ s.inlinedFiles)
  | failed (p : PathBuf) (e : Str) (hline : LineInlines fs scriptDir line p)
      (hnew : p ∉ s.inlinedFiles) (hread : fs.read p = .error e)
      (hfiles : s'.inlinedFiles = s.inlinedFiles ++ [p]) (hinlined : s'.inlined = s.inlined)
  | inlined (p : PathBuf) (file : ι) (r : Prepared ι) (hline : LineInlines fs scriptDir line p)
      (hnew : p ∉ s.inlinedFiles) (hread : fs.read p = .ok file)
      (hprepare : prepare (fs.text file) (moduleDir scriptDir p) = some r)
      (hfiles : s'.inlinedFiles = s.inlinedFiles ++ [p])
      (hinlined : s'.inlined = s.inlined ++ file :: r.inlined)

theorem LineInlines.unique {p q : PathBuf} (hp : LineInlines fs scriptDir line p)
    (hq : LineInlines fs scriptDir line q) : p = q := by
  obtain ⟨-, _, _, hp⟩ := hp
  obtain ⟨-, _, _, hq⟩ := hq
  rw [hp] at hq
  cases hq
  rfl

theorem LineInlines.not_breaks {p : PathBuf} (hp : LineInlines fs scriptDir line p) :
    ¬LineBreaks fs scriptDir line := by
  obtain ⟨-, _, _, hp⟩ := hp
  rintro ⟨-, hnone⟩
  rw [hp] at hnone
  cases hnone

theorem lineStep_of_prepareLine
    (h : prepareLine fs isAlphanumeric prepare scriptDir s line = some s') :
    LineStep fs prepare scriptDir s s' line := by
  rw [prepareLine] at h
  simp only at h
  split at h
  · rename_i himport
    split at h
    · cases h
    · rename_i hcomment
      cases h
      refine .kept rfl rfl (fun hbreaks => ?_) fun p hp => ?_
      · obtain ⟨-, hnone⟩ := hbreaks
        rw [hcomment] at hnone
        cases hnone
      · obtain ⟨-, _, _, hp⟩ := hp
        rw [hcomment] at hp
        cases hp
    · rename_i path p extension hinline
      have hline : LineInlines fs scriptDir line p := ⟨himport, path, extension, hinline⟩
      split at h
      · rename_i hseen
        cases h
        refine .kept rfl rfl hline.not_breaks fun q hq => ?_
        rw [← hline.unique hq]
        exact hseen
      · rename_i hnew
        split at h
        · rename_i file hread
          obtain ⟨r, hprepare, hs'⟩ := Option.bind_eq_some_iff.mp h
          cases hs'
          exact .inlined p file r hline hnew hread hprepare rfl rfl
        · rename_i e hread
          cases h
          exact .failed p e hline hnew hread rfl rfl
  · rename_i hother
    cases h
    exact .kept rfl rfl (fun hbreaks => hother hbreaks.1) fun p hp => absurd hp.1 hother

/-- Why a line has no result. -/
theorem of_prepareLine_eq_none
    (h : prepareLine fs isAlphanumeric prepare scriptDir s line = none) :
    LineBreaks fs scriptDir line ∨ ∃ p file, LineInlines fs scriptDir line p ∧
      fs.read p = .ok file ∧ prepare (fs.text file) (moduleDir scriptDir p) = none := by
  rw [prepareLine] at h
  simp only at h
  split at h
  · rename_i himport
    split at h
    · rename_i hnone
      exact .inl ⟨himport, hnone⟩
    · cases h
    · rename_i path p extension hinline
      split at h
      · cases h
      · split at h
        · rename_i file hread
          refine .inr ⟨p, file, ⟨himport, path, extension, hinline⟩, hread, ?_⟩
          cases hprepare : prepare (fs.text file) (moduleDir scriptDir p) with
          | none => rfl
          | some r =>
              rw [hprepare] at h
              cases h
        · cases h
  · cases h

/-! ## The loop over the lines -/

/-- A source with the directory its imports start from. -/
abbrev Source : Type := Str × Option PathBuf

variable (fs)

/-- An import of a source that is read and rewritten as a source of its own. -/
def ImportEdge (source : Source) (p : PathBuf) (file : ι) (source' : Source) : Prop :=
  (∃ line ∈ Str.lines source.1, LineInlines fs source.2 line p) ∧ fs.read p = .ok file ∧
    source' = (fs.text file, moduleDir source.2 p)

/-- The walks whose first import is of one of these files. -/
def WalkFrom (scriptDir : Option PathBuf) (files : List PathBuf) (es : List PathBuf) (i : ι) :
    Prop :=
  ∃ p ∈ files, ∃ file, fs.read p = .ok file ∧
    (es = [p] ∧ i = file ∨ ∃ rest source, es = p :: rest ∧
      Walk (ImportEdge fs) (fs.text file, moduleDir scriptDir p) rest i source)

/-- The modules are the ends of these walks, one for each of them. -/
def Logs (modules : List ι) (walks : List PathBuf → ι → Prop) : Prop :=
  ∃ ws : List (List PathBuf × ι), modules = ws.map Prod.snd ∧ (ws.map Prod.fst).Nodup ∧
    ∀ es i, (es, i) ∈ ws ↔ walks es i

variable {fs}

theorem walkFrom_concat (files : List PathBuf) (p : PathBuf) (es : List PathBuf) (i : ι) :
    WalkFrom fs scriptDir (files ++ [p]) es i ↔
      WalkFrom fs scriptDir files es i ∨ WalkFrom fs scriptDir [p] es i := by
  simp only [WalkFrom, List.mem_append, List.mem_singleton, or_and_right, exists_or,
    exists_eq_left]

theorem not_walkFrom_of_error {p : PathBuf} {e : Str} (h : fs.read p = .error e) (es : List PathBuf)
    (i : ι) : ¬WalkFrom fs scriptDir [p] es i := by
  rintro ⟨q, hq, file, hread, -⟩
  rw [List.mem_singleton.mp hq, h] at hread
  cases hread

/-- A module that is inlined adds the walk to it, and through it the walks of its own text. -/
theorem Logs.inline {modules : List ι} {files : List PathBuf} {p : PathBuf} {file : ι}
    {r : Prepared ι} (h : Logs modules (WalkFrom fs scriptDir files)) (hnew : p ∉ files)
    (hread : fs.read p = .ok file)
    (hr : Logs r.inlined fun es i =>
      ∃ source, Walk (ImportEdge fs) (fs.text file, moduleDir scriptDir p) es i source) :
    Logs (modules ++ file :: r.inlined) (WalkFrom fs scriptDir (files ++ [p])) := by
  obtain ⟨ws, rfl, hnodup, hmem⟩ := h
  obtain ⟨ws', hinlined, hnodup', hmem'⟩ := hr
  refine ⟨ws ++ ([p], file) :: ws'.map fun w => (p :: w.1, w.2), ?_, ?_, ?_⟩
  · simp [hinlined, Function.comp_def]
  · have hhead : ∀ es ∈ ws.map Prod.fst, es.head? ≠ some p := by
      intro es hes heq
      obtain ⟨⟨es, i⟩, hw, rfl⟩ := List.mem_map.mp hes
      obtain ⟨q, hq, _, -, ⟨rfl, -⟩ | ⟨rest, _, rfl, -⟩⟩ := (hmem es i).mp hw
      · exact hnew (Option.some.inj heq ▸ hq)
      · exact hnew (Option.some.inj heq ▸ hq)
    have hlong : ∀ es ∈ ws'.map Prod.fst, es ≠ [] := by
      intro es hes
      obtain ⟨⟨es, i⟩, hw, rfl⟩ := List.mem_map.mp hes
      obtain ⟨source, hwalk⟩ := (hmem' es i).mp hw
      exact hwalk.ne_nil
    rw [List.map_append, List.map_cons, List.map_map, List.nodup_append, List.nodup_cons]
    refine ⟨hnodup, ⟨?_, ?_⟩, ?_⟩
    · intro hone
      obtain ⟨w, hw, heq⟩ := List.mem_map.mp hone
      exact hlong w.1 (List.mem_map_of_mem hw) (List.cons.inj heq).2
    · change (ws'.map (List.cons p ∘ Prod.fst)).Nodup
      rw [← List.map_map]
      exact hnodup'.map List.cons_injective
    · intro es hes es' hes' heq
      subst heq
      rcases List.mem_cons.mp hes' with rfl | hes'
      · exact hhead _ hes rfl
      · obtain ⟨w, -, rfl⟩ := List.mem_map.mp hes'
        exact hhead _ hes rfl
  · intro es i
    rw [walkFrom_concat, List.mem_append, hmem]
    refine or_congr_right ?_
    constructor
    · intro hw
      refine ⟨p, List.mem_singleton_self p, file, hread, ?_⟩
      rcases List.mem_cons.mp hw with heq | hw
      · cases heq
        exact .inl ⟨rfl, rfl⟩
      · obtain ⟨⟨rest, j⟩, hrest, heq⟩ := List.mem_map.mp hw
        cases heq
        obtain ⟨source, hwalk⟩ := (hmem' rest j).mp hrest
        exact .inr ⟨rest, source, rfl, hwalk⟩
    · rintro ⟨q, hq, file', hread', hend⟩
      obtain rfl := List.mem_singleton.mp hq
      rw [hread] at hread'
      cases hread'
      rcases hend with ⟨rfl, rfl⟩ | ⟨rest, source, rfl, hwalk⟩
      · exact List.mem_cons_self
      · exact List.mem_cons_of_mem _
          (List.mem_map_of_mem (f := fun w : List PathBuf × ι => (q :: w.1, w.2))
            ((hmem' rest i).mpr ⟨source, hwalk⟩))

/-- What the loop leaves: the files of its lines, and a log of the walks that start at them. -/
theorem logs_of_foldlM
    (hprepare : ∀ text dir r, prepare text dir = some r → Logs r.inlined fun es i =>
      ∃ source, Walk (ImportEdge fs) (text, dir) es i source)
    (lines : List Str) {s s' : PrepareState ι}
    (h : lines.foldlM (prepareLine fs isAlphanumeric prepare scriptDir) s = some s')
    (hlogs : Logs s.inlined (WalkFrom fs scriptDir s.inlinedFiles)) :
    Logs s'.inlined (WalkFrom fs scriptDir s'.inlinedFiles) ∧
      ∀ p, p ∈ s'.inlinedFiles ↔
        p ∈ s.inlinedFiles ∨ ∃ line ∈ lines, LineInlines fs scriptDir line p := by
  induction lines generalizing s with
  | nil =>
      cases h
      exact ⟨hlogs, fun p => by simp⟩
  | cons line lines ih =>
      obtain ⟨s₁, hline, hrest⟩ := Option.bind_eq_some_iff.mp h
      have hfiles (p : PathBuf) (hline : LineInlines fs scriptDir line p) (q : PathBuf) :
          q ∈ s.inlinedFiles ++ [p] ↔
            q ∈ s.inlinedFiles ∨ LineInlines fs scriptDir line q := by
        rw [List.mem_append, List.mem_singleton]
        refine or_congr_right ⟨?_, fun hq => hq.unique hline⟩
        rintro rfl
        exact hline
      have hone : Logs s₁.inlined (WalkFrom fs scriptDir s₁.inlinedFiles) ∧
          ∀ q, q ∈ s₁.inlinedFiles ↔
            q ∈ s.inlinedFiles ∨ LineInlines fs scriptDir line q := by
        cases lineStep_of_prepareLine hline with
        | kept hsame hinlined hsound hseen =>
            rw [hsame, hinlined]
            refine ⟨hlogs, fun q => ⟨.inl, ?_⟩⟩
            rintro (hq | hq)
            · exact hq
            · exact hseen q hq
        | failed p e hinlines hnew hread hsame hinlined =>
            rw [hsame, hinlined]
            refine ⟨?_, hfiles p hinlines⟩
            obtain ⟨ws, hws, hnodup, hmem⟩ := hlogs
            refine ⟨ws, hws, hnodup, fun es i => ?_⟩
            rw [walkFrom_concat, hmem]
            exact (or_iff_left (not_walkFrom_of_error hread es i)).symm
        | inlined p file r hinlines hnew hread hr hsame hinlined =>
            rw [hsame, hinlined]
            exact ⟨hlogs.inline hnew hread (hprepare _ _ r hr), hfiles p hinlines⟩
      obtain ⟨hlogs', hfiles'⟩ := ih hrest hone.1
      refine ⟨hlogs', fun p => ?_⟩
      simp only [hfiles', hone.2, List.mem_cons, exists_eq_or_imp, or_assoc]

/-- The modules that the rewriter puts in are the ends of the walks from the script. -/
theorem logs_of_prepareScriptWithDir (fuel : ℕ) (source : Source) {r : Prepared ι}
    (h : prepareScriptWithDir fs isAlphanumeric fuel source.1 source.2 = some r) :
    Logs r.inlined fun es i => ∃ source', Walk (ImportEdge fs) source es i source' := by
  induction fuel generalizing source r with
  | zero => cases h
  | succ fuel ih =>
      obtain ⟨s, hs, rfl⟩ := Option.map_eq_some_iff.mp h
      have hstart : Logs ([] : List ι) (WalkFrom fs source.2 []) :=
        ⟨[], rfl, List.nodup_nil, fun es i => by simp [WalkFrom]⟩
      obtain ⟨⟨ws, hws, hnodup, hmem⟩, hfiles⟩ :=
        logs_of_foldlM (fun text dir r hr => ih (text, dir) hr) _ hs hstart
      refine ⟨ws, hws, hnodup, fun es i => ?_⟩
      rw [hmem]
      have hedge (p : PathBuf) : p ∈ s.inlinedFiles ↔
          ∃ line ∈ Str.lines source.1, LineInlines fs source.2 line p := by simp [hfiles]
      constructor
      · rintro ⟨p, hp, file, hread, ⟨rfl, rfl⟩ | ⟨rest, source', rfl, hwalk⟩⟩
        · exact ⟨_, .single ⟨(hedge p).mp hp, hread, rfl⟩⟩
        · exact ⟨source', .cons ⟨(hedge p).mp hp, hread, rfl⟩ hwalk⟩
      · rintro ⟨source', hwalk⟩
        cases hwalk with
        | single hstep =>
            obtain ⟨hline, hread, -⟩ := hstep
            exact ⟨_, (hedge _).mpr hline, _, hread, .inl ⟨rfl, rfl⟩⟩
        | cons hstep hrest =>
            obtain ⟨hline, hread, rfl⟩ := hstep
            exact ⟨_, (hedge _).mpr hline, _, hread, .inr ⟨_, _, rfl, hrest⟩⟩

/-- The modules that are put in are different exactly when no two walks lead to the same one. -/
theorem nodup_inlined_iff {fuel : ℕ} (source : Source) {r : Prepared ι}
    (h : prepareScriptWithDir fs isAlphanumeric fuel source.1 source.2 = some r) :
    r.inlined.Nodup ↔ Walk.Unique (ImportEdge fs) source := by
  obtain ⟨ws, hws, hnodup, hmem⟩ := logs_of_prepareScriptWithDir fuel source h
  rw [hws]
  constructor
  · intro hmodules es es' i s' s'' hwalk hwalk'
    have heq := List.inj_on_of_nodup_map hmodules ((hmem es i).mpr ⟨s', hwalk⟩)
      ((hmem es' i).mpr ⟨s'', hwalk'⟩) rfl
    exact congrArg Prod.fst heq
  · intro hunique
    refine (hnodup.of_map _).map_on ?_
    rintro ⟨es, i⟩ hw ⟨es', i'⟩ hw' rfl
    obtain ⟨s', hwalk⟩ := (hmem es i).mp hw
    obtain ⟨s'', hwalk'⟩ := (hmem es' i).mp hw'
    rw [hunique hwalk hwalk']

/-! ## Termination -/

variable (fs) in
def Breaks (source : Source) : Prop := ∃ line ∈ Str.lines source.1, LineBreaks fs source.2 line

theorem results_of_foldlM (lines : List Str) {s s' : PrepareState ι}
    (h : lines.foldlM (prepareLine fs isAlphanumeric prepare scriptDir) s = some s')
    (hstart : ∀ p ∈ s.inlinedFiles, ∀ file, fs.read p = .ok file →
      (prepare (fs.text file) (moduleDir scriptDir p)).isSome = true) :
    (∀ line ∈ lines, ¬LineBreaks fs scriptDir line) ∧
      ∀ p, (p ∈ s.inlinedFiles ∨ ∃ line ∈ lines, LineInlines fs scriptDir line p) →
        ∀ file, fs.read p = .ok file →
          (prepare (fs.text file) (moduleDir scriptDir p)).isSome = true := by
  induction lines generalizing s with
  | nil =>
      exact ⟨fun line hline => (List.not_mem_nil hline).elim, fun p hp =>
        hstart p (by simpa using hp)⟩
  | cons line lines ih =>
      obtain ⟨s₁, hline, hrest⟩ := Option.bind_eq_some_iff.mp h
      have hone : ¬LineBreaks fs scriptDir line ∧
          (∀ p ∈ s₁.inlinedFiles, ∀ file, fs.read p = .ok file →
            (prepare (fs.text file) (moduleDir scriptDir p)).isSome = true) ∧
          ∀ p, p ∈ s.inlinedFiles ∨ LineInlines fs scriptDir line p → p ∈ s₁.inlinedFiles := by
        cases lineStep_of_prepareLine hline with
        | kept hsame hinlined hsound hseen =>
            rw [hsame]
            refine ⟨hsound, hstart, fun q hq => ?_⟩
            rcases hq with hq | hq
            · exact hq
            · exact hseen q hq
        | failed p e hinlines hnew hread hsame hinlined =>
            rw [hsame]
            refine ⟨hinlines.not_breaks, ?_, fun q hq => ?_⟩
            · intro q hq file hfile
              rcases List.mem_append.mp hq with hq | hq
              · exact hstart q hq file hfile
              · rw [List.mem_singleton.mp hq, hread] at hfile
                cases hfile
            · rcases hq with hq | hq
              · exact List.mem_append_left _ hq
              · rw [hinlines.unique hq]
                exact List.mem_append_right _ (List.mem_singleton_self q)
        | inlined p file r hinlines hnew hread hr hsame hinlined =>
            rw [hsame]
            refine ⟨hinlines.not_breaks, ?_, fun q hq => ?_⟩
            · intro q hq file' hfile
              rcases List.mem_append.mp hq with hq | hq
              · exact hstart q hq file' hfile
              · obtain rfl := List.mem_singleton.mp hq
                rw [hread] at hfile
                cases hfile
                exact Option.isSome_iff_exists.mpr ⟨r, hr⟩
            · rcases hq with hq | hq
              · exact List.mem_append_left _ hq
              · rw [hinlines.unique hq]
                exact List.mem_append_right _ (List.mem_singleton_self q)
      obtain ⟨hsound, hresults⟩ := ih hrest hone.2.1
      refine ⟨?_, fun p hp => hresults p ?_⟩
      · intro line' hline'
        rcases List.mem_cons.mp hline' with rfl | hline'
        · exact hone.1
        · exact hsound line' hline'
      · simp only [List.mem_cons, exists_eq_or_imp, ← or_assoc] at hp
        exact hp.imp_left (hone.2.2 p)

theorem of_foldlM_eq_none (lines : List Str) {s : PrepareState ι}
    (h : lines.foldlM (prepareLine fs isAlphanumeric prepare scriptDir) s = none) :
    ∃ line ∈ lines, LineBreaks fs scriptDir line ∨ ∃ p file, LineInlines fs scriptDir line p ∧
      fs.read p = .ok file ∧ prepare (fs.text file) (moduleDir scriptDir p) = none := by
  induction lines generalizing s with
  | nil => cases h
  | cons line lines ih =>
      rw [List.foldlM_cons] at h
      cases hline : prepareLine fs isAlphanumeric prepare scriptDir s line with
      | none => exact ⟨line, List.mem_cons_self, of_prepareLine_eq_none hline⟩
      | some s₁ =>
          rw [hline] at h
          obtain ⟨line', hmem, hfails⟩ := ih h
          exact ⟨line', List.mem_cons_of_mem _ hmem, hfails⟩

/-- A result means that no source on the way breaks. -/
theorem not_breaks_of_prepareScriptWithDir (fuel : ℕ) (source : Source) {r : Prepared ι}
    (h : prepareScriptWithDir fs isAlphanumeric fuel source.1 source.2 = some r) :
    ¬Breaks fs source ∧
      ∀ es i source', Walk (ImportEdge fs) source es i source' → ¬Breaks fs source' := by
  induction fuel generalizing source r with
  | zero => cases h
  | succ fuel ih =>
      obtain ⟨s, hs, -⟩ := Option.map_eq_some_iff.mp h
      obtain ⟨hsound, hresults⟩ := results_of_foldlM _ hs (by simp)
      have hnext {p : PathBuf} {file : ι} {source' : Source}
          (hedge : ImportEdge fs source p file source') :
          ∃ r', prepareScriptWithDir fs isAlphanumeric fuel source'.1 source'.2 = some r' := by
        obtain ⟨hline, hread, rfl⟩ := hedge
        exact Option.isSome_iff_exists.mp (hresults p (.inr hline) file hread)
      refine ⟨fun ⟨line, hmem, hbreaks⟩ => hsound line hmem hbreaks, ?_⟩
      intro es i source' hwalk
      cases hwalk with
      | single hedge =>
          obtain ⟨r', hr'⟩ := hnext hedge
          exact (ih _ hr').1
      | cons hedge hrest =>
          obtain ⟨r', hr'⟩ := hnext hedge
          exact (ih _ hr').2 _ _ _ hrest

/-- Without a result the fuel is used up by a walk, or a source breaks. -/
theorem of_prepareScriptWithDir_eq_none (fuel : ℕ) (source : Source)
    (h : prepareScriptWithDir fs isAlphanumeric (fuel + 1) source.1 source.2 = none) :
    Breaks fs source ∨ ∃ es i source', Walk (ImportEdge fs) source es i source' ∧
      (Breaks fs source' ∨ es.length = fuel + 1) := by
  induction fuel generalizing source with
  | zero =>
      obtain ⟨line, hmem, hbreaks | ⟨p, file, hline, hread, -⟩⟩ :=
        of_foldlM_eq_none _ (Option.map_eq_none_iff.mp h)
      · exact .inl ⟨line, hmem, hbreaks⟩
      · exact .inr ⟨[p], file, _, .single ⟨⟨line, hmem, hline⟩, hread, rfl⟩, .inr rfl⟩
  | succ fuel ih =>
      obtain ⟨line, hmem, hbreaks | ⟨p, file, hline, hread, hnone⟩⟩ :=
        of_foldlM_eq_none _ (Option.map_eq_none_iff.mp h)
      · exact .inl ⟨line, hmem, hbreaks⟩
      · have hedge : ImportEdge fs source p file (fs.text file, moduleDir source.2 p) :=
          ⟨⟨line, hmem, hline⟩, hread, rfl⟩
        rcases ih (fs.text file, moduleDir source.2 p) hnone with hbreaks | ⟨es, i, s', hwalk, hend⟩
        · exact .inr ⟨[p], file, _, .single hedge, .inl hbreaks⟩
        · refine .inr ⟨p :: es, i, s', .cons hedge hwalk, hend.imp_right fun hlength => ?_⟩
          rw [List.length_cons, hlength]

/-- The rewriter comes to an end with each module put in at most once, exactly when no module is
reached by two walks along imports and no import that is reached has a lone quote for its path. -/
theorem prepareScriptWithDir_inlinesOnce_iff {ι : Type} [Fintype ι] (fs : FileSystem ι)
    (isAlphanumeric : Char → Bool) (source : Str) (scriptDir : Option PathBuf) :
    (∃ fuel r, prepareScriptWithDir fs isAlphanumeric fuel source scriptDir = some r ∧
        r.inlined.Nodup) ↔
      Walk.Unique (ImportEdge fs) (source, scriptDir) ∧ ¬Breaks fs (source, scriptDir) ∧
        ∀ es i source', Walk (ImportEdge fs) (source, scriptDir) es i source' →
          ¬Breaks fs source' := by
  constructor
  · rintro ⟨fuel, r, hr, hnodup⟩
    exact ⟨(nodup_inlined_iff (source, scriptDir) hr).mp hnodup,
      not_breaks_of_prepareScriptWithDir fuel (source, scriptDir) hr⟩
  · rintro ⟨hunique, hsound, hwalks⟩
    -- A walk that uses up this fuel would be longer than the number of modules.
    let fuel := Fintype.card ι + 1
    cases hr : prepareScriptWithDir fs isAlphanumeric fuel source scriptDir with
    | some r => exact ⟨fuel, r, hr, (nodup_inlined_iff (source, scriptDir) hr).mpr hunique⟩
    | none =>
        rcases of_prepareScriptWithDir_eq_none (Fintype.card ι) (source, scriptDir) hr with
          hbreaks | ⟨es, i, source', hwalk, hbreaks | hlength⟩
        · exact absurd hbreaks hsound
        · exact absurd hbreaks (hwalks es i source' hwalk)
        · have hle := hunique.length_le hwalk
          omega

end

section Example

/-- The modules `a.js` and `b.js` of the directory `s`, which both import its `c.js`. -/
def diamondFiles : FileSystem (Fin 3) where
  read p :=
    if p = .ofStr "s/a.js".toList then .ok 0
    else if p = .ofStr "s/b.js".toList then .ok 1
    else if p = .ofStr "s/c.js".toList then .ok 2
    else .error "No such file or directory (os error 2)".toList
  text
    | 0 => "import { c } from './c.js';".toList
    | 1 => "import { c } from './c.js';".toList
    | 2 => "export const c = 1;".toList
  fileExists p := p ∈ ["s/a.js", "s/b.js", "s/c.js"].map fun path => PathBuf.ofStr path.toList

def diamondScript : Str := "import { a } from './a.js';\nimport { b } from './b.js';".toList

/-- A module that two others import is put in twice. -/
theorem not_inlinesOnce_diamond :
    ¬∃ fuel r, prepareScriptWithDir diamondFiles Char.isAlphanum fuel diamondScript
      (some (.ofStr "s".toList)) = some r ∧ r.inlined.Nodup := by
  rintro ⟨fuel, r, hr, hnodup⟩
  let source : Source := (diamondScript, some (.ofStr "s".toList))
  have hunique := (nodup_inlined_iff source hr).mp hnodup
  let script : Source := ("import { c } from './c.js';".toList, some (.ofStr "s".toList))
  have hc : ImportEdge diamondFiles script (.ofStr "s/c.js".toList) 2
      ("export const c = 1;".toList, some (.ofStr "s".toList)) :=
    ⟨⟨"import { c } from './c.js';".toList, by decide +kernel, by decide +kernel,
      "./c.js".toList, false, rfl⟩, rfl, rfl⟩
  have ha : ImportEdge diamondFiles source (.ofStr "s/a.js".toList) 0 script :=
    ⟨⟨"import { a } from './a.js';".toList, by decide +kernel, by decide +kernel,
      "./a.js".toList, false, rfl⟩, rfl, rfl⟩
  have hb : ImportEdge diamondFiles source (.ofStr "s/b.js".toList) 1 script :=
    ⟨⟨"import { b } from './b.js';".toList, by decide +kernel, by decide +kernel,
      "./b.js".toList, false, rfl⟩, rfl, rfl⟩
  have heq := hunique (.cons ha (.single hc)) (.cons hb (.single hc))
  exact absurd heq (by decide +kernel)

end Example

end K6Rs
