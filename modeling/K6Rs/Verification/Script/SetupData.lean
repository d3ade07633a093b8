import K6Rs.Model.SetupData

/-! The data of the setup and of the summary stay data. The text in the script is one literal, which
reads as the JSON text. -/

namespace K6Rs

theorem escapeForScript_eq (json : Str) :
    escapeForScript json = Escape.escape '\\' ['\'', '\\'] json := by
  rw [escapeForScript, Escape.replace_eq_escape, Escape.replace_escape (by decide) (by decide)]

theorem soleLiteral_quotedScript {json : Str} (hline : ∀ c ∈ json, ¬(c = '\n' ∨ c = '\r'))
    (head tail : Str) :
    soleLiteral head tail (quotedScript head tail json) = some (JsString.ofStr json) := by
  have hhead : (head ++ ['\'']).isPrefixOf
      (head ++ ['\''] ++ escapeForScript json ++ '\'' :: tail) = true := by
    rw [List.isPrefixOf_iff_prefix, List.append_assoc]
    exact List.prefix_append _ _
  have hdrop : (head ++ ['\''] ++ escapeForScript json ++ '\'' :: tail).drop (head.length + 1) =
      escapeForScript json ++ '\'' :: tail := by
    rw [List.append_assoc]
    exact List.drop_left' (by simp)
  rw [quotedScript, soleLiteral, if_pos hhead, hdrop, escapeForScript_eq,
    JsLiteral.lexSingle_escape_append hline]
  simp only [if_true]

/-- Both scripts have one literal and nothing else of the data, and the value that is installed is
that of the raw text. -/
theorem literals_read_json {V : Type} (jsonParse : JsString → Option V) {json : Str}
    (hlf : '\n' ∉ json)
    (hcr : '\r' ∉ json) :
    soleLiteral "globalThis.__k6_setup_data = JSON.parse(".toList ");".toList
      (setupDataSource json) =
        some (JsString.ofStr json) ∧
      soleLiteral "JSON.parse(".toList ")".toList (summaryDataSource json) =
      some (JsString.ofStr json) ∧
      setSetupData jsonParse json = bootstrapSetupData jsonParse json ∧
      summaryData jsonParse json = jsonParse (JsString.ofStr json) := by
  have hline : ∀ c ∈ json, ¬(c = '\n' ∨ c = '\r') := by
    rintro c hc (rfl | rfl)
    · exact hlf hc
    · exact hcr hc
  have hsetup : soleLiteral _ _ (setupDataSource json) = _ := soleLiteral_quotedScript hline _ _
  have hsummary : soleLiteral _ _ (summaryDataSource json) = _ := soleLiteral_quotedScript hline _ _
  exact ⟨hsetup, hsummary, congrArg (Option.bind · jsonParse) hsetup,
    congrArg (Option.bind · jsonParse) hsummary⟩

theorem literals_read_json_quotes :
    soleLiteral "JSON.parse(".toList ")".toList (summaryDataSource "[\"it's\\n\"]".toList) =
      some (JsString.ofStr "[\"it's\\n\"]".toList) :=
  (literals_read_json (fun v => some v) (by decide) (by decide)).2.1

end K6Rs
