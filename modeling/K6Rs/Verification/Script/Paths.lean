import K6Rs.Verification.Script.Imports
import Mathlib.Order.Filter.AtTopBot.Basic
import Mathlib.Order.Filter.Finite

/-! The paths of imports. What stands after the first ` from ` is described by its parts, and the
rewriter ends exactly on the sources whose imports do not lead to a lone quote or on without end. -/

namespace K6Rs

/-! ## The path of one import -/

inductive QuoteMark : Char → Prop where
  | single : QuoteMark '\''
  | double : QuoteMark '"'

/-- The text after the first ` from `. -/
def AfterFrom (importLine after : Str) : Prop :=
  ∃ front, importLine = front ++ " from ".toList ++ after ∧
    ∀ i < front.length, ¬" from ".toList <+: importLine.drop i

/-- The text is `core`, with white space before it, and semicolons and then white space behind
it. -/
def Encloses (text core : Str) : Prop :=
  ∃ front semicolons back, text = front ++ core ++ semicolons ++ back ∧
    (∀ c ∈ front, Str.isWhitespace c) ∧ (∀ c ∈ semicolons, c = ';') ∧ ∀ c ∈ back, Str.isWhitespace c

/-- The path stands between an opening quote and the same quote behind it, and may itself hold this
quote. Only semicolons and then white space stand behind the closing quote. -/
def QuotesPath (importLine path : Str) : Prop :=
  ∃ after q, AfterFrom importLine after ∧ QuoteMark q ∧ Encloses after (q :: (path ++ [q]))

/-- The import is cut off behind its opening quote. -/
def LoneQuote (importLine : Str) : Prop :=
  ∃ after q, AfterFrom importLine after ∧ QuoteMark q ∧ Encloses after [q]

section

variable {importLine after text path core : Str} {q : Char}

theorem QuoteMark.not_isWhitespace (h : QuoteMark q) : Str.isWhitespace q = false := by
  cases h <;> rfl

theorem QuoteMark.ne_semicolon (h : QuoteMark q) : q ≠ ';' := by
  cases h <;> decide

theorem afterFrom_iff :
    AfterFrom importLine after ↔ ∃ fromIdx,
      Str.findText " from ".toList importLine = some fromIdx ∧
      importLine.drop (fromIdx + 6) = after := by
  constructor
  · rintro ⟨front, rfl, hfirst⟩
    refine ⟨front.length, Str.findText_eq_some_iff.mpr ⟨?_, hfirst⟩, ?_⟩
    · rw [List.append_assoc, List.drop_left]
      exact List.prefix_append _ after
    · exact List.drop_left' (by simp)
  · rintro ⟨fromIdx, hfind, rfl⟩
    refine ⟨importLine.take fromIdx, Str.findText_eq_some hfind, fun i hi => ?_⟩
    rw [List.length_take] at hi
    exact (Str.findText_eq_some_iff.mp hfind).2 i (by omega)

/-- Trimming and dropping semicolons lays open what is enclosed, if that does not end so itself. -/
theorem encloses_iff (hq : QuoteMark q) (hhead : core.head? = some q)
    (hlast : core.getLast? = some q) :
    Encloses text core ↔ (Str.trim text).rdropWhile (· = ';') = core := by
  obtain ⟨body, rfl⟩ := List.head?_eq_some_iff.mp hhead
  constructor
  · rintro ⟨front, semicolons, back, rfl, hfront, hsemicolons, hback⟩
    have htrim : Str.trim (q :: body ++ semicolons) = q :: body ++ semicolons := by
      have hend : (q :: body ++ semicolons).rdropWhile Str.isWhitespace =
          q :: body ++ semicolons := by
        rw [List.rdropWhile_eq_self_iff]
        intro hne
        rw [List.getLast_append]
        split
        · rw [List.getLast_of_getLast?_eq_some hlast, hq.not_isWhitespace]
          exact Bool.false_ne_true
        · rw [hsemicolons _ (List.getLast_mem _)]
          decide
      rw [Str.trim, Str.trimStart, List.cons_append,
        List.dropWhile_cons_of_neg (by simp [hq.not_isWhitespace])]
      exact hend
    rw [Str.trim_append_of_whitespace _ _ hback, List.append_assoc,
      Str.trim_whitespace_append _ _ hfront, htrim, List.rdropWhile, List.reverse_append,
      List.dropWhile_append_of_pos (by simpa using hsemicolons)]
    exact List.rdropWhile_eq_self_iff.mpr fun hne => by
      rw [List.getLast_of_getLast?_eq_some hlast]
      simpa using hq.ne_semicolon
  · intro hcore
    obtain ⟨front, back, htext, hfront, hback⟩ := Str.exists_append_trim text
    refine ⟨front, (Str.trim text).rtakeWhile (· = ';'), back, ?_, hfront, fun c hc => ?_, hback⟩
    · rw [← hcore, List.append_assoc front, List.rdropWhile_append_rtakeWhile]
      exact htext
    · simpa using List.mem_rtakeWhile_imp hc

theorem starts_and_ends_iff :
    core.head? = some q ∧ core.getLast? = some q ↔ core = [q] ∨ ∃ path,
    core = q :: (path ++ [q]) := by
  constructor
  · rintro ⟨hhead, hlast⟩
    obtain ⟨body, rfl⟩ := List.head?_eq_some_iff.mp hhead
    rcases List.eq_nil_or_concat body with rfl | ⟨path, c, rfl⟩
    · exact .inl rfl
    · rw [List.concat_eq_append, ← List.cons_append, List.getLast?_concat, Option.some_inj] at hlast
      exact .inr ⟨path, by rw [hlast, List.concat_eq_append]⟩
  · rintro (rfl | ⟨path, rfl⟩)
    · simp
    · rw [← List.cons_append, List.getLast?_concat]
      exact ⟨rfl, rfl⟩

/-- What the rewriter cuts the path of an import out of. -/
def pathText (after : Str) : Str := (Str.trim after).rdropWhile (· = ';')

theorem encloses_lone_iff (hq : QuoteMark q) : Encloses text [q] ↔ pathText text = [q] :=
  encloses_iff hq rfl rfl

theorem encloses_quoted_iff (hq : QuoteMark q) :
    Encloses text (q :: (path ++ [q])) ↔ pathText text = q :: (path ++ [q]) := by
  obtain ⟨hhead, hlast⟩ := starts_and_ends_iff.mpr (.inr ⟨path, rfl⟩)
  exact encloses_iff hq hhead hlast

theorem startsAndEnds_iff :
    (core.head? = some '\'' ∧ core.getLast? = some '\'' ∨
        core.head? = some '"' ∧ core.getLast? = some '"') ↔
      ∃ q, QuoteMark q ∧ (core = [q] ∨ ∃ path, core = q :: (path ++ [q])) := by
  simp only [starts_and_ends_iff]
  constructor
  · rintro (hcore | hcore)
    · exact ⟨_, .single, hcore⟩
    · exact ⟨_, .double, hcore⟩
  · rintro ⟨q, hq, hcore⟩
    cases hq with
    | single => exact .inl hcore
    | double => exact .inr hcore

/-- A lone quote is the one text that starts and ends with a quote and has no slice inside. -/
theorem extractImportPath_eq_none_iff :
    extractImportPath importLine = none ↔ LoneQuote importLine := by
  rw [extractImportPath]
  constructor
  · intro hnone
    split at hnone
    · cases hnone
    · rename_i fromIdx hfind
      simp only at hnone
      split at hnone
      · rename_i hquoted
        split at hnone
        · rename_i hshort
          obtain ⟨q, hq, hlone | ⟨path, hpath⟩⟩ := startsAndEnds_iff.mp hquoted
          · exact ⟨_, q, afterFrom_iff.mpr ⟨fromIdx, hfind, rfl⟩, hq,
              (encloses_lone_iff hq).mpr hlone⟩
          · rw [hpath] at hshort
            simp only [List.length_cons, List.length_append] at hshort
            omega
        · cases hnone
      · cases hnone
  · rintro ⟨after, q, hafter, hq, hlone⟩
    obtain ⟨fromIdx, hfind, rfl⟩ := afterFrom_iff.mp hafter
    have htext := (encloses_lone_iff hq).mp hlone
    rw [pathText] at htext
    simp only [hfind, htext]
    rw [if_pos (startsAndEnds_iff.mpr ⟨q, hq, .inl rfl⟩)]
    exact if_pos Nat.one_lt_two

theorem extractImportPath_eq_some_iff :
    extractImportPath importLine = some (some path) ↔ QuotesPath importLine path := by
  rw [extractImportPath]
  constructor
  · intro hsome
    split at hsome
    · cases hsome
    · rename_i fromIdx hfind
      simp only at hsome
      split at hsome
      · rename_i hquoted
        split at hsome
        · cases hsome
        · rename_i hlong
          obtain ⟨q, hq, hlone | ⟨inner, hinner⟩⟩ := startsAndEnds_iff.mp hquoted
          · rw [hlone] at hlong
            simp at hlong
          · rw [hinner] at hsome
            obtain rfl : inner = path := by simpa [Str.slice] using hsome
            exact ⟨_, q, afterFrom_iff.mpr ⟨fromIdx, hfind, rfl⟩, hq,
              (encloses_quoted_iff hq).mpr hinner⟩
      · cases hsome
  · rintro ⟨after, q, hafter, hq, hquoted⟩
    obtain ⟨fromIdx, hfind, rfl⟩ := afterFrom_iff.mp hafter
    have htext := (encloses_quoted_iff hq).mp hquoted
    rw [pathText] at htext
    simp only [hfind, htext]
    rw [if_pos (startsAndEnds_iff.mpr ⟨q, hq, .inr ⟨path, rfl⟩⟩), if_neg (by simp)]
    simp [Str.slice]

end

/-! ## Sources -/

section

variable {ι : Type} {fs : FileSystem ι} {isAlphanumeric : Char → Bool}

/-- No import of the source has a lone quote for its path, and the sources that it puts in are such
again; they do not go on without end. -/
inductive Sound (fs : FileSystem ι) : Source → Prop where
  | intro (source : Source)
      (hquotes : source.2.isSome = true → ∀ line ∈ Str.lines source.1,
        startsWith (Str.trim line) "import " = true → ¬LoneQuote (Str.trim line))
      (himports : ∀ p file source', ImportEdge fs source p file source' → Sound fs source') :
      Sound fs source

theorem importLine_eq_none_iff {scriptDir : Option PathBuf} {trimmed : Str} :
    importLine fs scriptDir trimmed = none ↔ scriptDir.isSome = true ∧ LoneQuote trimmed := by
  rw [← extractImportPath_eq_none_iff]
  cases scriptDir with
  | none => simp [importLine]
  | some dir =>
      rw [importLine]
      cases extractImportPath trimmed with
      | none => simp
      | some path =>
          cases path with
          | none => simp
          | some path =>
              refine iff_of_false (fun hnone => ?_) fun hlone => by cases hlone.2
              simp only at hnone
              split at hnone
              · cases hnone
              · split at hnone <;> cases hnone

theorem breaks_iff (source : Source) :
    Breaks fs source ↔ source.2.isSome = true ∧ ∃ line ∈ Str.lines source.1,
      startsWith (Str.trim line) "import " = true ∧ LoneQuote (Str.trim line) := by
  simp only [Breaks, LineBreaks, importLine_eq_none_iff]
  grind

/-- With enough fuel a line finds its file rewritten. -/
theorem eventually_line {scriptDir : Option PathBuf} {line : Str}
    (h : ∀ p file, LineInlines fs scriptDir line p → fs.read p = .ok file →
      ∀ᶠ fuel in Filter.atTop,
        (prepareScriptWithDir fs isAlphanumeric fuel (fs.text file)
          (moduleDir scriptDir p)).isSome) :
    ∀ᶠ fuel in Filter.atTop, ∀ p file, LineInlines fs scriptDir line p → fs.read p = .ok file →
      (prepareScriptWithDir fs isAlphanumeric fuel (fs.text file)
        (moduleDir scriptDir p)).isSome := by
  by_cases hline : ∃ p file, LineInlines fs scriptDir line p ∧ fs.read p = .ok file
  · obtain ⟨p, file, hline, hread⟩ := hline
    filter_upwards [h p file hline hread] with fuel hfuel p' file' hline' hread'
    obtain rfl := hline.unique hline'
    rw [hread] at hread'
    cases hread'
    exact hfuel
  · exact .of_forall fun fuel p file hline' hread => absurd ⟨p, file, hline', hread⟩ hline

/-- A sound source is rewritten with all but finitely many amounts of fuel. -/
theorem Sound.eventually {source : Source} (h : Sound fs source) :
    ∀ᶠ fuel in Filter.atTop,
      (prepareScriptWithDir fs isAlphanumeric fuel source.1 source.2).isSome := by
  induction h with
  | intro source hquotes himports ih =>
      have hlines : ∀ᶠ fuel in Filter.atTop, ∀ line ∈ {line | line ∈ Str.lines source.1}, ∀ p file,
          LineInlines fs source.2 line p → fs.read p = .ok file →
          (prepareScriptWithDir fs isAlphanumeric fuel (fs.text file)
            (moduleDir source.2 p)).isSome := by
        rw [Filter.eventually_all_finite (List.finite_toSet _)]
        exact fun line hline => eventually_line fun p file hinlines hread =>
          ih p file _ ⟨⟨line, hline, hinlines⟩, hread, rfl⟩
      obtain ⟨enough, henough⟩ := Filter.eventually_atTop.mp hlines
      refine Filter.eventually_atTop.mpr ⟨enough + 1, fun fuel hle => ?_⟩
      obtain ⟨fuel, rfl⟩ := Nat.exists_eq_add_of_le' (Nat.le_of_add_left_le hle)
      have hfuel := henough fuel (Nat.le_of_add_le_add_right hle)
      by_contra hnone
      rw [Option.not_isSome_iff_eq_none, prepareScriptWithDir, Option.map_eq_none_iff] at hnone
      obtain ⟨line, hline, hbreaks | ⟨p, file, hinlines, hread, hnone⟩⟩ :=
        of_foldlM_eq_none _ hnone
      · obtain ⟨hdir, line, hline, himport, hlone⟩ := (breaks_iff source).mp ⟨line, hline, hbreaks⟩
        exact hquotes hdir line hline himport hlone
      · have hsome := hfuel line hline p file hinlines hread
        rw [hnone] at hsome
        cases hsome

theorem sound_of_isSome (fuel : ℕ) (source : Source)
    (h : (prepareScriptWithDir fs isAlphanumeric fuel source.1 source.2).isSome) :
    Sound fs source := by
  induction fuel generalizing source with
  | zero => cases h
  | succ fuel ih =>
      rw [prepareScriptWithDir, Option.isSome_map] at h
      obtain ⟨s, hs⟩ := Option.isSome_iff_exists.mp h
      obtain ⟨hsound, hresults⟩ := results_of_foldlM _ hs (by simp)
      refine .intro source (fun hdir line hline himport hlone => ?_) fun p file source' hedge => ?_
      · exact hsound line hline ⟨himport, importLine_eq_none_iff.mpr ⟨hdir, hlone⟩⟩
      · obtain ⟨hline, hread, rfl⟩ := hedge
        exact ih _ (hresults p (.inr hline) file hread)

/-- The path of an import comes back as it is quoted exactly when the import has no lone quote for
it, and a script is rewritten exactly when its imports lead neither to a lone quote nor on without
end. -/
theorem prepareScriptWithDir_returns_iff {ι : Type} (fs : FileSystem ι)
    (isAlphanumeric : Char → Bool)
    (source : Str) (scriptDir : Option PathBuf) :
    (∀ importLine, (∃ path, extractImportPath importLine = some path ∧
        ∀ p, path = some p ↔ QuotesPath importLine p) ↔ ¬LoneQuote importLine) ∧
      ((∃ fuel, (prepareScriptWithDir fs isAlphanumeric fuel source scriptDir).isSome = true) ↔
        Sound fs (source, scriptDir)) := by
  refine ⟨fun importLine => ?_, ?_, ?_⟩
  · rw [← extractImportPath_eq_none_iff]
    constructor
    · rintro ⟨path, hpath, -⟩ hnone
      rw [hpath] at hnone
      cases hnone
    · intro hnone
      obtain ⟨path, hpath⟩ := Option.ne_none_iff_exists'.mp hnone
      refine ⟨path, hpath, fun p => ?_⟩
      rw [← extractImportPath_eq_some_iff, hpath, Option.some_inj]
  · rintro ⟨fuel, hsome⟩
    exact sound_of_isSome fuel (source, scriptDir) hsome
  · intro hsound
    obtain ⟨fuel, hfuel⟩ := hsound.eventually.exists
    exact ⟨fuel, hfuel⟩

/-- An import that is cut off behind its opening quote. -/
theorem not_returns_loneQuote :
    extractImportPath "import a from '".toList = none ∧
      ¬∃ fuel, (prepareScriptWithDir diamondFiles Char.isAlphanum fuel "import a from '".toList
        (some (.ofStr "s".toList))).isSome = true := by
  have hpanic : extractImportPath "import a from '".toList = none := by decide
  refine ⟨hpanic, fun ⟨fuel, hsome⟩ => ?_⟩
  cases sound_of_isSome fuel ("import a from '".toList, some (.ofStr "s".toList)) hsome with
  | intro _ hquotes _ =>
      exact hquotes rfl "import a from '".toList (by decide) (by decide)
        (extractImportPath_eq_none_iff.mp (by decide))

end

end K6Rs
