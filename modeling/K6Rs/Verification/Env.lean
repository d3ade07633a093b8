import K6Rs.Library.Except
import K6Rs.Model.Env

/-! # Environment variables

Where the value of a variable comes from, and which commands run for it. The executor is watched
through a log of its calls. -/

namespace K6Rs

/-! ## Sources -/

/-- A flag that sets a variable. -/
structure IsEnvFlag (s : Str) (flag : Str × Str) : Prop where
  eq : s = flag.1 ++ '=' :: flag.2
  first : '=' ∉ flag.1
  nonempty : flag.1 ≠ []

/-- The variables of a file; a later entry takes the place of an earlier one. -/
def dotenvMap (file : DotenvFile) : KeyMap Str Str :=
  (∅ : KeyMap Str Str).extend ((file.getD []).filterMap Except.toOption)

/-- The last flag for a variable, or else the first file that has it. -/
def sourceValue (flags : List (Str × Str)) (files : List DotenvFile) (name : Str) : Option Str :=
  (flags.reverse.lookup name).or (files.findSome? fun file => (dotenvMap file).find? name)

/-! ## Calls -/

/-- A command that the executor was given, and what it gave back. -/
structure EnvCall where
  command : Str
  result : Except ConfigError Str

/-- An executor that keeps a log of its calls. -/
def logged {σ : Type} (executor : σ → Str → Except ConfigError Str × σ) (world : σ × List EnvCall)
    (command : Str) : Except ConfigError Str × (σ × List EnvCall) :=
  let (result, next) := executor world.1 command
  (result, (next, world.2 ++ [⟨command, result⟩]))

/-- The call for a variable, whose output is the value in the end. -/
structure ResolvedBy (value final : Str → Option Str) (name : Str) (call : EnvCall) : Prop where
  command : value name = some (CMD_PREFIX ++ call.command)
  output : ∃ output, call.result = .ok output ∧ final name = some output

/-- The calls for variables in turn, of which the last fails. -/
inductive Fails (value : Str → Option Str) : List Str → List EnvCall → Prop where
  | failed {name rest call e} (command : value name = some (CMD_PREFIX ++ call.command))
      (result : call.result = .error e) : Fails value (name :: rest) [call]
  | answered {name rest call calls output}
        (command : value name = some (CMD_PREFIX ++ call.command))
      (result : call.result = .ok output) :
      Fails value rest calls → Fails value (name :: rest) (call :: calls)

section

variable {σ : Type} {executor : σ → Str → Except ConfigError Str × σ}

theorem logged_calls {world : σ × List EnvCall} {command : Str} :
    (logged executor world command).2.2 =
      world.2 ++ [⟨command, (logged executor world command).1⟩] := rfl

/-- What a run of the commands for `keys` comes to. -/
theorem resolveKeys_logged {value : Str → Option Str} {keys : List Str} (hnodup : keys.Nodup)
    {envMap : KeyMap Str Str} (hvalue : ∀ key ∈ keys, envMap.find? key = value key)
    (hcommand : ∀ key ∈ keys, ∃ command, value key = some (CMD_PREFIX ++ command))
    (run : EnvRun (σ × List EnvCall)) :
    ∃ calls, (resolveKeys (logged executor) keys envMap run).2.world.2 = run.world.2 ++ calls ∧
      ((∃ final, (resolveKeys (logged executor) keys envMap run).1 = .ok final ∧
          List.Forall₂ (ResolvedBy value final.find?) keys calls ∧
          ∀ name, name ∉ keys → final.find? name = envMap.find? name) ∨
        ∃ e, (resolveKeys (logged executor) keys envMap run).1 = .error e ∧
        Fails value keys calls) := by
  induction keys generalizing envMap run with
  | nil => exact ⟨[], (List.append_nil _).symm, .inl ⟨envMap, rfl, .nil, fun _ _ => rfl⟩⟩
  | cons key keys ih =>
      obtain ⟨command, hkey⟩ := hcommand key List.mem_cons_self
      have hfind : envMap.find? key = some (CMD_PREFIX ++ command) :=
        (hvalue key List.mem_cons_self).trans hkey
      rw [List.nodup_cons] at hnodup
      rw [resolveKeys, hfind]
      simp only [List.drop_left]
      cases hresult : (logged executor run.world command).1 with
      | error e =>
          refine ⟨[⟨command, .error e⟩], ?_, .inr ⟨_, rfl, .failed hkey rfl⟩⟩
          exact logged_calls.trans (by rw [hresult])
      | ok output =>
          -- The other keys keep their values.
          have hother : ∀ k ∈ keys, (envMap.upsert key fun _ => output).find? k = value k := by
            intro k hk
            have hne : k ≠ key := fun h => hnodup.1 (h ▸ hk)
            rw [KeyMap.find?_upsert_of_ne envMap _ hne]
            exact hvalue k (List.mem_cons_of_mem key hk)
          obtain ⟨calls, hcalls, hrest⟩ := ih hnodup.2 hother
            (fun k hk => hcommand k (List.mem_cons_of_mem key hk))
            (({ run with world := (logged executor run.world command).2 }).writeln
              ("    ".toList ++ key ++ " ← cmd:***".toList))
          refine ⟨⟨command, .ok output⟩ :: calls, ?_, ?_⟩
          · refine hcalls.trans ?_
            change (logged executor run.world command).2.2 ++ calls = _
            rw [logged_calls, hresult, List.append_assoc]
            rfl
          · rcases hrest with ⟨final, hfinal, hanswers, hframe⟩ | ⟨e, herror, hfails⟩
            · refine .inl ⟨final, hfinal, .cons ⟨hkey, output, rfl, ?_⟩ hanswers, ?_⟩
              · rw [hframe key hnodup.1, KeyMap.find?_upsert_self]
              · intro name hname
                rw [List.mem_cons, not_or] at hname
                rw [hframe name hname.2, KeyMap.find?_upsert_of_ne envMap _ hname.1]
            · exact .inr ⟨e, herror, .answered hkey rfl hfails⟩

theorem nodup_cmdKeys (order : HashOrder Str Str) (envMap : KeyMap Str Str) :
    (cmdKeys order envMap).Nodup := by
  have hkeys : ((order.iter envMap).map Prod.fst).Nodup :=
    ((order.perm envMap).map Prod.fst).nodup_iff.mpr envMap.nodup
  exact hkeys.sublist (List.filter_sublist.map Prod.fst)

theorem mem_cmdKeys {order : HashOrder Str Str} {envMap : KeyMap Str Str} {name : Str} :
    name ∈ cmdKeys order envMap ↔ ∃ command, envMap.find? name = some (CMD_PREFIX ++ command) := by
  simp only [cmdKeys, List.mem_map, List.mem_filter, (order.perm envMap).mem_iff,
    List.isPrefixOf_iff_prefix, KeyMap.find?_eq_some_iff]
  constructor
  · rintro ⟨⟨name, raw⟩, ⟨hmem, command, rfl⟩, rfl⟩
    exact ⟨command, hmem⟩
  · rintro ⟨command, hmem⟩
    exact ⟨(name, CMD_PREFIX ++ command), ⟨hmem, command, rfl⟩, rfl⟩

/-- The commands run for the keys that have one, in the order of the map. -/
theorem resolveCommands_logged (order : HashOrder Str Str) (envMap : KeyMap Str Str)
    (run : EnvRun (σ × List EnvCall)) :
    ∃ calls, (resolveCommands order (logged executor) envMap run).2.world.2 = run.world.2 ++ calls ∧
      ((∃ final, (resolveCommands order (logged executor) envMap run).1 = .ok final ∧
          List.Forall₂ (ResolvedBy envMap.find? final.find?) (cmdKeys order envMap) calls ∧
          ∀ name, name ∉ cmdKeys order envMap → final.find? name = envMap.find? name) ∨
        ∃ e, (resolveCommands order (logged executor) envMap run).1 = .error e ∧
          Fails envMap.find? (cmdKeys order envMap) calls) := by
  rw [resolveCommands]
  cases hkeys : cmdKeys order envMap with
  | nil => exact ⟨[], (List.append_nil _).symm, .inl ⟨envMap, rfl, .nil, fun _ _ => rfl⟩⟩
  | cons key keys =>
      have hnodup := nodup_cmdKeys order envMap
      have hcommand := fun name => (@mem_cmdKeys order envMap name).mp
      rw [hkeys] at hnodup hcommand
      exact resolveKeys_logged hnodup (fun _ _ => rfl) hcommand _

/-! ## Files and flags -/

theorem loadDotenvEntry_fold (items : List (Except Str (Str × Str)))
    (loaded : KeyMap Str Str × EnvRun σ) :
    (items.foldl loadDotenvEntry loaded).1 = loaded.1.extend (items.filterMap Except.toOption) ∧
      (items.foldl loadDotenvEntry loaded).2.world = loaded.2.world := by
  induction items generalizing loaded with
  | nil => exact ⟨rfl, rfl⟩
  | cons item items ih =>
      cases item with
      | ok entry => exact ih (loadDotenvEntry loaded (.ok entry))
      | error e => exact ih (loadDotenvEntry loaded (.error e))

theorem loadDotenvFile_map (file : DotenvFile) (run : EnvRun σ) :
    (loadDotenvFile file run).1 = dotenvMap file ∧
    (loadDotenvFile file run).2.world = run.world := by
  cases file with
  | none => exact ⟨rfl, rfl⟩
  | some items =>
      obtain ⟨hmap, hworld⟩ := loadDotenvEntry_fold items (∅, run)
      rw [loadDotenvFile]
      simp only
      split
      · exact ⟨hmap, hworld⟩
      · exact ⟨hmap, hworld⟩

/-- Files that are read from the last to the first leave the value of the first that has one. -/
theorem extendDotenv_fold (order : HashOrder Str Str) (files : List DotenvFile)
    (run : EnvRun σ) :
    (∀ name, (files.reverse.foldl (extendDotenv order) (∅, run)).1.find? name =
        files.findSome? fun file => (dotenvMap file).find? name) ∧
      (files.reverse.foldl (extendDotenv order) (∅, run)).2.world = run.world := by
  rw [List.foldl_reverse]
  induction files with
  | nil => exact ⟨fun _ => rfl, rfl⟩
  | cons file files ih =>
      obtain ⟨hfind, hworld⟩ := ih
      rw [List.foldr_cons]
      generalize List.foldr (fun file loaded => extendDotenv order loaded file) (∅, run) files =
        loaded
        at hfind hworld ⊢
      obtain ⟨hmap, hload⟩ := loadDotenvFile_map file loaded.2
      refine ⟨fun name => ?_, hload.trans hworld⟩
      have hiter : ((order.iter (dotenvMap file)).reverse.lookup name) =
          (dotenvMap file).find? name :=
        KeyMap.lookup_eq_of_perm ((List.reverse_perm _).trans (order.perm _)) name
      change (loaded.1.extend (order.iter (loadDotenvFile file loaded.2).1)).find? name = _
      rw [hmap, KeyMap.find?_extend, hiter, hfind, List.findSome?_cons]
      cases (dotenvMap file).find? name with
      | none => rfl
      | some value => rfl

theorem applyCliEnv_eq_ok_iff {envMap envMap' : KeyMap Str Str} {s : Str} :
    applyCliEnv envMap s = .ok envMap' ↔
      ∃ flag, IsEnvFlag s flag ∧ envMap' = envMap.upsert flag.1 fun _ => flag.2 := by
  rw [applyCliEnv]
  constructor
  · intro h
    split at h
    · cases h
    · rename_i k v hsplit
      obtain ⟨heq, hfirst⟩ := Str.splitOnce_eq_some_iff.mp hsplit
      cases k with
      | nil => cases h
      | cons c k => exact ⟨(c :: k, v), ⟨heq, hfirst, List.cons_ne_nil c k⟩, (Except.ok.inj h).symm⟩
  · rintro ⟨⟨k, v⟩, ⟨heq, hfirst, hnonempty⟩, rfl⟩
    rw [Str.splitOnce_eq_some_iff.mpr ⟨heq, hfirst⟩]
    simp only
    rw [if_neg (by simpa using hnonempty)]

theorem applyCliEnvs_of_flags {cliEnvs : List Str} {flags : List (Str × Str)}
    (h : List.Forall₂ IsEnvFlag cliEnvs flags) (envMap : KeyMap Str Str) :
    applyCliEnvs cliEnvs envMap = .ok (envMap.extend flags) := by
  induction h generalizing envMap with
  | nil => rfl
  | @cons s flag cliEnvs flags hflag _ ih =>
      rw [applyCliEnvs, List.foldlM_cons, applyCliEnv_eq_ok_iff.mpr ⟨flag, hflag, rfl⟩]
      exact ih _

theorem applyCliEnvs_of_invalid {cliEnvs : List Str} {s : Str} (hmem : s ∈ cliEnvs)
    (hinvalid : ∀ flag, ¬IsEnvFlag s flag) (envMap : KeyMap Str Str) :
    ∃ e, applyCliEnvs cliEnvs envMap = .error e := by
  induction cliEnvs generalizing envMap with
  | nil => cases hmem
  | cons s' cliEnvs ih =>
      rw [applyCliEnvs, List.foldlM_cons]
      cases hstep : applyCliEnv envMap s' with
      | error e => exact ⟨e, rfl⟩
      | ok next =>
          rcases List.mem_cons.mp hmem with rfl | hmem
          · obtain ⟨flag, hflag, -⟩ := applyCliEnv_eq_ok_iff.mp hstep
            exact (hinvalid flag hflag).elim
          · exact ih hmem next

/-! ## All sources -/

theorem resolveEnvVarsFromDirs_of_invalid (order : HashOrder Str Str) {cliEnvs : List Str} {s : Str}
    (hmem : s ∈ cliEnvs) (hinvalid : ∀ flag, ¬IsEnvFlag s flag) (dirs : List DotenvFile)
    (run : EnvRun σ) :
    ∃ e next, resolveEnvVarsFromDirs order executor cliEnvs dirs run = (.error e, next) ∧
      next.world = run.world := by
  obtain ⟨e, he⟩ := applyCliEnvs_of_invalid hmem hinvalid
    (dirs.reverse.foldl (extendDotenv order) (∅, run)).1
  refine ⟨e, _, ?_, (extendDotenv_fold order dirs run).2⟩
  rw [resolveEnvVarsFromDirs]
  simp only [he]

/-- The flags and the files leave the commands of the sources to be resolved. -/
theorem resolveEnvVarsFromDirs_of_flags (order : HashOrder Str Str) {cliEnvs : List Str}
    {flags : List (Str × Str)} (hflags : List.Forall₂ IsEnvFlag cliEnvs flags)
    (dirs : List DotenvFile) (run : EnvRun σ) :
    ∃ envMap next, envMap.find? = sourceValue flags dirs ∧ next.world = run.world ∧
      resolveEnvVarsFromDirs order executor cliEnvs dirs run =
        ((resolveCommands order executor envMap next).1.map order.iter,
          (resolveCommands order executor envMap next).2) := by
  obtain ⟨hfind, hworld⟩ := extendDotenv_fold order dirs run
  refine ⟨(dirs.reverse.foldl (extendDotenv order) (∅, run)).1.extend flags,
    (dirs.reverse.foldl (extendDotenv order) (∅, run)).2, ?_, hworld, ?_⟩
  · funext name
    rw [KeyMap.find?_extend, hfind, sourceValue]
  · rw [resolveEnvVarsFromDirs]
    simp only [applyCliEnvs_of_flags hflags]
    rcases resolveCommands order executor _ _ with ⟨e | envMap, next⟩
    · rfl
    · rfl

/-- A variable has the value of its source, or the output of the one call for it. -/
theorem resolveEnvVarsFromDirs_resolves (order : HashOrder Str Str)
    (executor : σ → Str → Except ConfigError Str × σ) (cliEnvs : List Str) (dirs : List DotenvFile)
    (world : σ) (out : List Str) :
    ∃ result run,
      resolveEnvVarsFromDirs order (logged executor) cliEnvs dirs ⟨(world, []), out⟩ =
      (result, run) ∧
      (∀ s ∈ cliEnvs, (∀ flag, ¬IsEnvFlag s flag) → run.world.2 = [] ∧ ∃ e, result = .error e) ∧
      ∀ flags, List.Forall₂ IsEnvFlag cliEnvs flags →
        ∃ names : List Str, names.Nodup ∧
          (∀ name, name ∈ names ↔
            ∃ command, sourceValue flags dirs name = some (CMD_PREFIX ++ command)) ∧
          ((∃ vars, result = .ok vars ∧ (vars.map Prod.fst).Nodup ∧
              List.Forall₂ (ResolvedBy (sourceValue flags dirs) fun name => vars.lookup name) names
                run.world.2 ∧
              ∀ name, name ∉ names → vars.lookup name = sourceValue flags dirs name) ∨
            ∃ e, result = .error e ∧ Fails (sourceValue flags dirs) names run.world.2) := by
  rcases hrun : resolveEnvVarsFromDirs order (logged executor) cliEnvs dirs ⟨(world, []), out⟩ with
    ⟨result, run⟩
  refine ⟨result, run, rfl, fun s hs hinvalid => ?_, fun flags hflags => ?_⟩
  · obtain ⟨e, next, heq, hworld⟩ :=
      @resolveEnvVarsFromDirs_of_invalid _ (logged executor) order _ _
      hs hinvalid dirs ⟨(world, []), out⟩
    cases hrun.symm.trans heq
    exact ⟨congrArg Prod.snd hworld, e, rfl⟩
  · obtain ⟨envMap, next, hsource, hworld, heq⟩ :=
      @resolveEnvVarsFromDirs_of_flags _ (logged executor) order _ _
      hflags dirs ⟨(world, []), out⟩
    cases hrun.symm.trans heq
    obtain ⟨calls, hcalls, hresolved⟩ := @resolveCommands_logged _ executor order envMap next
    rw [hworld, List.nil_append] at hcalls
    refine ⟨cmdKeys order envMap, nodup_cmdKeys order envMap, fun name => ?_, ?_⟩
    · rw [mem_cmdKeys, hsource]
    · rw [hsource] at hresolved
      rcases hresolved with ⟨final, hfinal, hanswers, hframe⟩ | ⟨e, herror, hfails⟩
      · have hlookup (name : Str) : (order.iter final).lookup name = final.find? name :=
          KeyMap.lookup_eq_of_perm (order.perm final) name
        refine .inl ⟨order.iter final, ?_, ?_, ?_, fun name hname => ?_⟩
        · rw [hfinal]
          rfl
        · exact ((order.perm final).map Prod.fst).nodup_iff.mpr final.nodup
        · simp only [hcalls, hlookup]
          exact hanswers
        · rw [hlookup]
          exact hframe name hname
      · refine .inr ⟨e, ?_, ?_⟩
        · rw [herror]
          rfl
        · rw [hcalls]
          exact hfails

end

end K6Rs
