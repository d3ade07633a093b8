import K6Rs.Model.PrepareScript

/-! # The lines of a script, as the grammar of the language divides them

A line is a part of an import statement, begins with an export statement, or is neither; the
rewriter has to treat it accordingly. -/

namespace K6Rs

/-! ## Names and what separates them -/

/-- Blanks and block comments. -/
inductive Trivia : Str → Prop
  | nil : Trivia []
  | blank {c : Char} {s : Str} (hc : Str.isWhitespace c = true) (hs : Trivia s) : Trivia (c :: s)
  | comment {body s : Str}
      (hbody : Str.findText ['*', '/'] (body ++ ['*', '/']) = some body.length) (hs : Trivia s) :
      Trivia ('/' :: '*' :: (body ++ ['*', '/'] ++ s))

def isIdentifierPart (c : Char) : Bool :=
  c.isAlphanum || c = '_' || c = '$' || (128 ≤ c.toNat && !Str.isWhitespace c)

def IsIdentifier (name : Str) : Prop := name ≠ [] ∧ ∀ c ∈ name, isIdentifierPart c = true

/-- A name ends before this text. -/
def EndsName (tail : Str) : Prop := ∀ c ∈ tail.head?, isIdentifierPart c = false

/-- The text begins with the name. -/
def Leads (name s : Str) : Prop :=
  ∃ gap tail, Trivia gap ∧ EndsName tail ∧ s = gap ++ name ++ tail

/-- The text is blank, or a comment begins in it that ends in a later line. -/
def Blank (s : Str) : Prop :=
  ∃ gap rest, Trivia gap ∧ s = gap ++ rest ∧ (rest = [] ∨ "/*".toList <+: rest)

/-! ## Labels -/

inductive VariableKeyword where
  | const
  | let
  | var
  deriving DecidableEq

def VariableKeyword.text : VariableKeyword → Str
  | .const => "const".toList
  | .let => "let".toList
  | .var => "var".toList

/-- The text behind the keyword `export`. -/
inductive ExportForm where
  /-- A variable `name`; `further` names are declared by the same statement, and `initialized` is
  whether the variable has an initializer. -/
  | declared (gap : Str) (keyword : VariableKeyword) (rest name : Str) (further : List Str)
      (initialized : Bool) (hgap : Trivia gap) (hname : IsIdentifier name)
      (hfurther : ∀ name ∈ further, IsIdentifier name) (hrest : Leads name rest)
  /-- A pattern of variables. -/
  | pattern (gap : Str) (keyword : VariableKeyword) (rest : Str) (names : List Str)
      (hgap : Trivia gap) (hnames : ∀ name ∈ names, IsIdentifier name)
      (hrest : ∃ front c tail, Trivia front ∧ (c = '{' ∨ c = '[') ∧ rest = front ++ c :: tail)
  /-- A variable whose name stands in a later line. -/
  | later (gap : Str) (keyword : VariableKeyword) (rest name : Str) (further : List Str)
      (initialized : Bool) (hgap : Trivia gap) (hrest : Blank rest)
  | function (gap rest name : Str) (hgap : Trivia gap)
  | default (gap value : Str) (hgap : Trivia gap)
  /-- A list of names, a class, an async function, or nothing on this line. -/
  | other (text : Str)

/-- The texts at the start of a line for which the rewriter has an export branch. -/
def exportStarts : List String :=
  ["export default function", "export default async function", "export const options",
    "export function", "export let ", "export var ", "export const "]

namespace ExportForm

def text : ExportForm → Str
  | .declared gap keyword rest .. => gap ++ keyword.text ++ rest
  | .pattern gap keyword rest .. => gap ++ keyword.text ++ rest
  | .later gap keyword rest .. => gap ++ keyword.text ++ rest
  | .function gap rest .. => gap ++ "function".toList ++ rest
  | .default gap value _ => gap ++ "default".toList ++ value
  | .other text => text

/-- An export is named by its form unless it has one of the others. -/
def WellFormed : ExportForm → Prop
  | .other text => ∀ start ∈ exportStarts, startsWith ("export".toList ++ text) start = false
  | _ => True

end ExportForm

/-- A line that an export statement begins. -/
structure ExportLine where
  text : Str
  form : ExportForm
  wellFormed : form.WellFormed
  trimmed : Str.trim text = "export".toList ++ form.text

inductive LineKind where
  /-- Neither part of an import statement nor begun by an export statement. -/
  | plain (text : Str)
  /-- A part of an import statement. -/
  | importPart (text : Str)
  | exported (line : ExportLine)

structure ScriptLine where
  kind : LineKind
  /-- An import or export statement begins inside the line. -/
  inner : Bool

def LineKind.text : LineKind → Str
  | .plain text => text
  | .importPart text => text
  | .exported line => line.text

def ScriptLine.text (line : ScriptLine) : Str := line.kind.text

/-! ## What the rewriter has to do -/

/-- The property of the global object for an export. -/
def globalSlot (name : Str) : Str :=
  if name = "options".toList then "__k6_options".toList else name

/-- The line is put away as a comment. -/
def PutAway (text : Str) : Prop :=
  startsWith (Str.trim text) "import " = true ∨ startsWith (Str.trim text) "//" = true

namespace ExportForm

/-- Between `function ` and the parenthesis stands the name alone. -/
def NamesFunction (rest slot : Str) : Prop :=
  ∃ front back, Trivia front ∧ Trivia back ∧
    (rest.drop 1).takeWhile (· ≠ '(') = front ++ slot ++ back

def Handled : ExportForm → Prop
  | .declared gap keyword rest name further initialized .. =>
      gap = [' '] ∧ rest.head? = some ' ' ∧ initialized = true ∧
        (name = "options".toList ↔ keyword = .const ∧ " options".toList <+: rest) ∧
        ∀ n ∈ further, globalSlot n = globalSlot name
  | .pattern gap _ rest names .. => gap = [' '] ∧ rest.head? = some ' ' ∧ names = []
  | .later gap _ rest name further initialized .. =>
      gap = [' '] ∧ rest.head? = some ' ' ∧ initialized = true ∧
        ∀ n ∈ name :: further, globalSlot n = name
  | .function gap rest name _ =>
      gap = [' '] ∧ (rest.head? = some ' ' → NamesFunction rest (globalSlot name)) ∧
        (rest.head? ≠ some ' ' → globalSlot name = name)
  | .default gap value _ =>
      gap = [' '] ∧ (startsWith value " function" = true ∨
        startsWith value " async function" = true)
  | .other _ => False

end ExportForm

def LineKind.Handled : LineKind → Prop
  | .plain text => ∀ start ∈ "import " :: exportStarts, startsWith (Str.trim text) start = false
  | .importPart text => PutAway text
  | .exported line => line.form.Handled

def ScriptLine.Handled (line : ScriptLine) : Prop :=
  line.kind.Handled ∧ (line.inner = true → PutAway line.text)

end K6Rs
