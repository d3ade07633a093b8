import K6Rs.Library.JsLiteral

/-! The data of the setup and of the summary on their way into a script. The sequential VU writes
the JSON text into the source of a small script, the coroutine VU sets it as a string. -/

namespace K6Rs

/-- `replace('\\', "\\\\").replace('\'', "\\'")`. -/
def escapeForScript (json : Str) : Str :=
  Escape.replace '\'' ['\\', '\''] (Escape.replace '\\' ['\\', '\\'] json)

/-- The script `head'…'tail` with the escaped text between the quotes. -/
def quotedScript (head tail json : Str) : Str :=
  head ++ ['\''] ++ escapeForScript json ++ '\'' :: tail

def setupDataSource (json : Str) : Str :=
  quotedScript "globalThis.__k6_setup_data = JSON.parse(".toList ");".toList json

def summaryDataSource (dataJson : Str) : Str :=
  quotedScript "JSON.parse(".toList ")".toList dataJson

/-- The string of the literal in a script that is `head`, one literal in single quotes and `tail`.
Any other script has none. -/
def soleLiteral (head tail source : Str) : Option JsString :=
  if (head ++ ['\'']).isPrefixOf source then
    match JsLiteral.lexSingle (source.drop (head.length + 1)) with
    | some (v, rest) => if rest = tail then some v else none
    | none => none
  else none

section

-- `JSON.parse` is that of the engine.
variable {V : Type} (jsonParse : JsString → Option V)

/-- The value that `set_setup_data` installs. -/
def setSetupData (json : Str) : Option V :=
  (soleLiteral "globalThis.__k6_setup_data = JSON.parse(".toList ");".toList
    (setupDataSource json)).bind jsonParse

/-- The value that `run_handle_summary` calls `handleSummary` with. -/
def summaryData (dataJson : Str) : Option V :=
  (soleLiteral "JSON.parse(".toList ")".toList (summaryDataSource dataJson)).bind jsonParse

/-- The value that the coroutine VU installs: the raw text is set as a global and parsed from
there. -/
def bootstrapSetupData (json : Str) : Option V :=
  let setupDataJson := JsString.ofStr json
  jsonParse setupDataJson

end

end K6Rs
