import K6Rs.Library.Text

/-! The script rewriter: it goes over a script line by line, puts imports away, inlines local
modules in their place, and turns exports into assignments to `globalThis`. -/

namespace K6Rs

/-! ## Paths -/

/-- A path by its components, as paths are compared: `.` stands only at the front of a relative
path, and `..` is not resolved. -/
structure PathBuf where
  absolute : Bool
  components : List Str
  deriving DecidableEq

namespace PathBuf

def ofStr (s : Str) : PathBuf :=
  let kept (part : Str) : Bool := part ≠ [] ∧ part ≠ ['.']
  match List.splitOn '/' s with
  | [] => ⟨false, []⟩
  | first :: rest =>
      { absolute := s.head? = some '/'
        components := (if first = [] then [] else [first]) ++ rest.filter kept }

def join (dir path : PathBuf) : PathBuf :=
  if path.absolute then path
  else if dir.components = [] ∧ !dir.absolute then path
  else { dir with components := dir.components ++ path.components.filter (· ≠ ['.']) }

def parent (path : PathBuf) : Option PathBuf :=
  if path.components = [] then none
  else some { path with components := path.components.dropLast }

end PathBuf

/-- What the rewriter sees of the files: `read` opens a path and finds one of the modules, or fails
with the text of an error. -/
structure FileSystem (ι : Type) where
  read : PathBuf → Except Str ι
  text : ι → Str
  fileExists : PathBuf → Bool

/-! ## Imports -/

/-- `starts_with` -/
def startsWith (s : Str) (start : String) : Bool := start.toList.isPrefixOf s

/-- The module path of an import. A lone quote is cut to a slice that ends before it begins, which
panics and gives `none`. -/
def extractImportPath (importLine : Str) : Option (Option Str) :=
  match Str.findText " from ".toList importLine with
  | none => some none
  | some fromIdx =>
      let afterFrom := importLine.drop (fromIdx + 6)
      let trimmed := (Str.trim afterFrom).rdropWhile (· = ';')
      if trimmed.head? = some '\'' ∧ trimmed.getLast? = some '\'' ∨
          trimmed.head? = some '"' ∧ trimmed.getLast? = some '"' then
        if trimmed.length < 2 then none else some (some (Str.slice trimmed 1 (trimmed.length - 1)))
      else some none

/-- What becomes of an import. -/
inductive ImportLine where
  | comment
  | inline (path : Str) (resolved : PathBuf) (extension : Bool)

section

variable {ι : Type} (fs : FileSystem ι)

def importLine (scriptDir : Option PathBuf) (trimmed : Str) : Option ImportLine :=
  match scriptDir with
  | none => some .comment
  | some dir =>
      match extractImportPath trimmed with
      | none => none
      | some none => some .comment
      | some (some path) =>
          if startsWith path "./" || startsWith path "../" then
            some (.inline path (dir.join (.ofStr path)) false)
          else if startsWith path "k6/x/" then
            let extName := path.drop 5
            let extensions := dir.join (.ofStr "extensions".toList)
            let extFile := extensions.join (.ofStr (extName ++ ".js".toList))
            let extFileIndex := (extensions.join (.ofStr extName)).join (.ofStr "index.js".toList)
            some (.inline path (if fs.fileExists extFile then extFile else extFileIndex) true)
          else some .comment

/-! ## Exports -/

variable (isAlphanumeric : Char → Bool)

/-- A line that is no import. -/
def exportLine (line trimmed : Str) : Str :=
  if startsWith trimmed "export default function" ||
      startsWith trimmed "export default async function" then
    "globalThis.__k6_default = ".toList ++ trimmed.drop "export default ".length
  else if startsWith trimmed "export const options" then
    "globalThis.__k6_options".toList ++ trimmed.drop "export const options".length
  else if startsWith trimmed "export function" then
    let rest := trimmed.drop "export ".length
    let binding :=
      if startsWith rest "function " then
        let name := (rest.drop "function ".length).takeWhile (· ≠ '(')
        "globalThis.".toList ++ name ++ " = ".toList
      else []
    binding ++ rest
  else if startsWith trimmed "export let " || startsWith trimmed "export var " ||
      startsWith trimmed "export const " then
    let rest :=
      if startsWith trimmed "export const " then trimmed.drop "export const ".length
      else if startsWith trimmed "export let " then trimmed.drop "export let ".length
      else trimmed.drop "export var ".length
    let name := rest.takeWhile fun c => isAlphanumeric c || c == '_'
    let afterName := rest.drop name.length
    "globalThis.".toList ++ name ++ afterName
  else line

/-! ## The loop over the lines -/

/-- The rewritten text, and the modules whose text is in it. -/
structure Prepared (ι : Type) where
  output : Str
  inlined : List ι

structure PrepareState (ι : Type) extends Prepared ι where
  inlinedFiles : List PathBuf

variable {fs}

def PrepareState.write (s : PrepareState ι) (line : Str) : PrepareState ι :=
  { s with output := s.output ++ line ++ ['\n'] }

/-- The comment above an inlined module. -/
def inlineHeader (path : Str) (extension : Bool) : Str :=
  (if extension then "// extension: ".toList else "// inlined: ".toList) ++ path

def inlineError (path e : Str) (extension : Bool) : Str :=
  if extension then "// ERROR: extension ".toList ++ path ++ " not found: ".toList ++ e
  else "// ERROR: could not import ".toList ++ path ++ ": ".toList ++ e

/-- The directory that the imports of an inlined file start from. -/
def moduleDir (scriptDir : Option PathBuf) (resolved : PathBuf) : Option PathBuf :=
  match resolved.parent with
  | some parent => some parent
  | none => scriptDir

variable (fs)

/-- One line; `prepare` rewrites an imported file. -/
def prepareLine (prepare : Str → Option PathBuf → Option (Prepared ι)) (scriptDir : Option PathBuf)
    (s : PrepareState ι) (line : Str) : Option (PrepareState ι) :=
  let trimmed := Str.trim line
  if startsWith trimmed "import " then
    match importLine fs scriptDir trimmed with
    | none => none
    | some .comment => some (s.write ("// ".toList ++ line))
    | some (.inline path resolved extension) =>
        if resolved ∈ s.inlinedFiles then some (s.write ("// already inlined: ".toList ++ path))
        else
          let s := { s with inlinedFiles := s.inlinedFiles ++ [resolved] }
          match fs.read resolved with
          | .ok file => do
              let prepared ← prepare (fs.text file) (moduleDir scriptDir resolved)
              return { s.write (inlineHeader path extension) with
                output :=
                  (s.write (inlineHeader path extension)).output ++ prepared.output ++ ['\n']
                inlined := s.inlined ++ file :: prepared.inlined }
          | .error e => some (s.write (inlineError path e extension))
  else some (s.write (exportLine isAlphanumeric line trimmed))

/-- The rewritten script; the fuel bounds the depth of the recursion into imported files. -/
def prepareScriptWithDir : ℕ → Str → Option PathBuf → Option (Prepared ι)
  | 0, _, _ => none
  | fuel + 1, source, scriptDir =>
      ((Str.lines source).foldlM
        (prepareLine fs isAlphanumeric (prepareScriptWithDir fuel) scriptDir)
        ⟨⟨[], []⟩, []⟩).map PrepareState.toPrepared

end

end K6Rs
