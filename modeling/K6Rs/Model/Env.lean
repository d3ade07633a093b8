import K6Rs.Library.Text
import K6Rs.Library.KeyMap
import K6Rs.Model.Config

/-! The environment of a script: `.env` files, `--env` flags, and the commands whose output takes
the place of a value. -/

namespace K6Rs

def CMD_PREFIX : Str := "cmd:".toList

/-- The order in which a hash map is iterated. -/
structure HashOrder (κ ν : Type) where
  iter : KeyMap κ ν → List (κ × ν)
  perm : ∀ m, (iter m).Perm m.entries

/-- What a run can change: the world that commands run in, and the lines it has written. -/
structure EnvRun (σ : Type) where
  world : σ
  out : List Str

namespace EnvRun

variable {σ : Type}

def writeln (run : EnvRun σ) (line : Str) : EnvRun σ := { run with out := run.out ++ [line] }

end EnvRun

/-- The entries that are read from a `.env` file, if it can be opened. -/
abbrev DotenvFile := Option (List (Except Str (Str × Str)))

section

variable {σ : Type}

/-! ## Files -/

def loadDotenvEntry (loaded : KeyMap Str Str × EnvRun σ) (item : Except Str (Str × Str)) :
    KeyMap Str Str × EnvRun σ :=
  match item with
  | .ok (key, value) => (loaded.1.upsert key fun _ => value, loaded.2)
  | .error e =>
      (loaded.1, loaded.2.writeln ("  warning: skipping invalid .env entry: ".toList ++ e))

def loadDotenvFile (file : DotenvFile) (run : EnvRun σ) : KeyMap Str Str × EnvRun σ :=
  match file with
  | none => (∅, run)
  | some items =>
      let (map, run) := items.foldl loadDotenvEntry (∅, run)
      if !map.entries.isEmpty then
        (map, run.writeln ("  reading ".toList ++ (toString map.entries.length).toList ++
          " environment variable(s) from .env file".toList))
      else (map, run)

/-! ## Flags -/

def applyCliEnv (envMap : KeyMap Str Str) (s : Str) : Except ConfigError (KeyMap Str Str) :=
  match Str.splitOnce '=' s with
  | (_, none) => bail ("invalid --env format '".toList ++ s ++ "', expected VAR=value".toList)
  | (k, some v) =>
      if k.isEmpty then bail ("empty variable name in --env '".toList ++ s ++ "'".toList)
      else .ok (envMap.upsert k fun _ => v)

def applyCliEnvs (cliEnvs : List Str) (envMap : KeyMap Str Str) :
    Except ConfigError (KeyMap Str Str) :=
  cliEnvs.foldlM applyCliEnv envMap

/-! ## Commands -/

variable (order : HashOrder Str Str) (executor : σ → Str → Except ConfigError Str × σ)

def resolveContext (key : Str) : Str :=
  "failed to resolve env var '".toList ++ key ++
    ("' via cmd: — is the provider authenticated? (run with a pre-existing session, " ++
      "e.g. `op signin`, `vault login`)").toList

/-- The loop over the keys. An index without an entry panics. -/
def resolveKeys : List Str → KeyMap Str Str → EnvRun σ →
    Except ConfigError (KeyMap Str Str) × EnvRun σ
  | [], envMap, run => (.ok envMap, run)
  | key :: keys, envMap, run =>
      match envMap.find? key with
      | none => (bail "no entry found for key".toList, run)
      | some raw =>
          let (result, world) := executor run.world (raw.drop CMD_PREFIX.length)
          let run := { run with world }
          match withContext (resolveContext key) result with
          | .error e => (.error e, run)
          | .ok value =>
              resolveKeys keys (envMap.upsert key fun _ => value)
                (run.writeln ("    ".toList ++ key ++ " ← cmd:***".toList))

def cmdKeys (envMap : KeyMap Str Str) : List Str :=
  ((order.iter envMap).filter fun entry => CMD_PREFIX.isPrefixOf entry.2).map Prod.fst

def resolveCommands (envMap : KeyMap Str Str) (run : EnvRun σ) :
    Except ConfigError (KeyMap Str Str) × EnvRun σ :=
  let keys := cmdKeys order envMap
  if keys.isEmpty then (.ok envMap, run)
  else
    resolveKeys executor keys envMap
      (run.writeln ("  resolving ".toList ++ (toString keys.length).toList ++
        " environment variable(s) via shell commands".toList))

/-! ## All sources -/

def extendDotenv (loaded : KeyMap Str Str × EnvRun σ) (file : DotenvFile) :
    KeyMap Str Str × EnvRun σ :=
  let (map, run) := loadDotenvFile file loaded.2
  (loaded.1.extend (order.iter map), run)

def resolveEnvVarsFromDirs (cliEnvs : List Str) (dotenvDirs : List DotenvFile) (run : EnvRun σ) :
    Except ConfigError (List (Str × Str)) × EnvRun σ :=
  let (envMap, run) := dotenvDirs.reverse.foldl (extendDotenv order) (∅, run)
  match applyCliEnvs cliEnvs envMap with
  | .error e => (.error e, run)
  | .ok envMap =>
      match resolveCommands order executor envMap run with
      | (.error e, run) => (.error e, run)
      | (.ok envMap, run) => (.ok (order.iter envMap), run)

end

end K6Rs
