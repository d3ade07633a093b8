import K6Rs.Model.HyperClient

/-! # The headers of a request

The client puts its own `Host` and `User-Agent` in front of the caller's headers. -/

namespace K6Rs

/-- The values of a header, in their order. -/
def headerValues (headers : Headers) (name : Str) : List Str :=
  (headers.filter fun header => Str.eqIgnoreAsciiCase header.1 name).map Prod.snd

/-- The headers that are sent, by those of the caller. -/
structure HeadersAsGiven (req : HyperRequest) (authority userAgent : Str) (sent : Headers) :
    Prop where
  host : ∃ value, headerValues sent "host".toList = [value] ∧
    (headerValues req.headers "host".toList = [] → value = authority) ∧
    (headerValues req.headers "host".toList ≠ [] → value ∈ headerValues req.headers "host".toList)
  userAgent : headerValues sent "user-agent".toList =
    if headerValues req.headers "user-agent".toList = [] then [userAgent]
    else headerValues req.headers "user-agent".toList
  others : ∀ name, Str.asciiLower name ≠ "host".toList → Str.asciiLower name ≠ "user-agent".toList →
    headerValues sent name = headerValues req.headers name

section

variable {req : HyperRequest} {authority userAgent : Str} {sent : Headers}

theorem headerValues_append (headers more : Headers) (name : Str) :
    headerValues (headers ++ more) name = headerValues headers name ++ headerValues more name := by
  rw [headerValues, List.filter_append, List.map_append]
  rfl

theorem headerValues_cons_self (name value : Str) (headers : Headers) :
    headerValues ((name, value) :: headers) name = value :: headerValues headers name := by
  rw [headerValues, List.filter_cons_of_pos (by simp [Str.eqIgnoreAsciiCase])]
  rfl

theorem headerValues_cons_of_ne {key name : Str} (h : Str.asciiLower key ≠ Str.asciiLower name)
    (value : Str)
    (headers : Headers) : headerValues ((key, value) :: headers) name =
    headerValues headers name := by
  rw [headerValues, List.filter_cons_of_neg (by simpa [Str.eqIgnoreAsciiCase] using h)]
  rfl

theorem headerValues_eq_nil_iff {headers : Headers} {name : Str} :
    headerValues headers name = [] ↔
      ∀ header ∈ headers, Str.eqIgnoreAsciiCase header.1 name = false := by
  simp [headerValues, List.filter_eq_nil_iff]

/-- The client's own user agent, where the caller has none. -/
def ownUserAgent (req : HyperRequest) (userAgent : Str) : Headers :=
  if headerValues req.headers "user-agent".toList = [] then [("user-agent".toList, userAgent)]
  else []

theorem requestHeaders_eq (req : HyperRequest) (authority userAgent : Str) :
    requestHeaders req authority userAgent =
      ("host".toList, authority) :: (ownUserAgent req userAgent ++ req.headers) := by
  rw [requestHeaders, ownUserAgent]
  by_cases h : headerValues req.headers "user-agent".toList = []
  · have hany : (req.headers.any fun header =>
        Str.eqIgnoreAsciiCase header.1 "user-agent".toList) = false := by
      rw [List.any_eq_false]
      intro header hheader
      rw [headerValues_eq_nil_iff.mp h header hheader]
      exact Bool.false_ne_true
    rw [if_pos h, hany]
    rfl
  · have hany : (req.headers.any fun header =>
        Str.eqIgnoreAsciiCase header.1 "user-agent".toList) = true := by
      by_contra hnone
      refine h (headerValues_eq_nil_iff.mpr fun header hheader => ?_)
      have hall := List.any_eq_false.mp (Bool.eq_false_iff.mpr hnone) header hheader
      exact Bool.eq_false_iff.mpr hall
    rw [if_neg h, hany]
    rfl

theorem headerValues_ownUserAgent_of_ne {name : Str}
    (h : Str.asciiLower name ≠ "user-agent".toList) :
    headerValues (ownUserAgent req userAgent) name = [] := by
  rw [ownUserAgent]
  split
  · exact headerValues_cons_of_ne (Ne.symm h) userAgent []
  · rfl

theorem host_requestHeaders :
    headerValues (requestHeaders req authority userAgent) "host".toList =
      authority :: headerValues req.headers "host".toList := by
  rw [requestHeaders_eq, headerValues_cons_self, headerValues_append,
    headerValues_ownUserAgent_of_ne (by decide), List.nil_append]

theorem userAgent_requestHeaders :
    headerValues (requestHeaders req authority userAgent) "user-agent".toList =
      if headerValues req.headers "user-agent".toList = [] then [userAgent]
      else headerValues req.headers "user-agent".toList := by
  rw [requestHeaders_eq, headerValues_cons_of_ne (by decide), headerValues_append, ownUserAgent]
  split
  · rename_i h
    rw [h, headerValues_cons_self]
    rfl
  · rfl

theorem others_requestHeaders {name : Str} (hhost : Str.asciiLower name ≠ "host".toList)
    (hagent : Str.asciiLower name ≠ "user-agent".toList) :
    headerValues (requestHeaders req authority userAgent) name = headerValues req.headers name := by
  rw [requestHeaders_eq, headerValues_cons_of_ne (Ne.symm hhost), headerValues_append,
    headerValues_ownUserAgent_of_ne hagent, List.nil_append]

/-- There is exactly one `Host` when the caller gives none. -/
theorem headersAsGiven_iff {lib : HeaderLib}
    (h : buildRequestHeaders lib req authority userAgent = .ok sent) :
    HeadersAsGiven req authority userAgent sent ↔
      ∀ header ∈ req.headers, Str.eqIgnoreAsciiCase header.1 "host".toList = false := by
  have hsent : sent = requestHeaders req authority userAgent := by
    rw [buildRequestHeaders] at h
    split at h
    · exact (Except.ok.inj h).symm
    · cases h
  subst hsent
  rw [← headerValues_eq_nil_iff]
  constructor
  · rintro ⟨⟨value, hvalue, -⟩, -, -⟩
    rw [host_requestHeaders] at hvalue
    exact (List.cons.inj hvalue).2
  · intro hnone
    refine ⟨⟨authority, ?_, fun _ => rfl, fun hgiven => (hgiven hnone).elim⟩,
      userAgent_requestHeaders, fun name hhost hagent => others_requestHeaders hhost hagent⟩
    rw [host_requestHeaders, hnone]

end

section Example

def tokenHeaders : HeaderLib where
  validName name := !name.isEmpty && name.all fun c => c.isAlphanum || c = '-'
  validValue value := value.all fun c => ' ' ≤ c && c ≤ '~'

def withHeaders (headers : Headers) : HyperRequest :=
  ⟨.get, "http://a.example/".toList, headers, none⟩

/-- A header, a second value of it, and a user agent of the caller. -/
def acceptTwice : HyperRequest :=
  withHeaders [("Accept".toList, "text/html".toList), ("User-Agent".toList, "probe".toList),
    ("accept".toList, "text/plain".toList)]

theorem headersAsGiven_accept :
    HeadersAsGiven acceptTwice "a.example:80".toList "k6-rs".toList
        (requestHeaders acceptTwice "a.example:80".toList "k6-rs".toList) ↔
      ∀ header ∈ acceptTwice.headers, Str.eqIgnoreAsciiCase header.1 "host".toList = false :=
  @headersAsGiven_iff _ _ _ _ tokenHeaders (by decide)

/-- A `Host` of the caller comes after the one of the URL. -/
theorem not_headersAsGiven : ∃ sent,
    buildRequestHeaders tokenHeaders (withHeaders [("Host".toList, "b.example".toList)])
        "a.example:80".toList "k6-rs".toList = .ok sent ∧
      ¬HeadersAsGiven (withHeaders [("Host".toList, "b.example".toList)]) "a.example:80".toList
        "k6-rs".toList sent := by
  refine ⟨_, rfl, ?_⟩
  rintro ⟨⟨value, hvalue, -⟩, -, -⟩
  have hlength : 2 = 1 := congrArg List.length hvalue
  exact absurd hlength (by decide)

end Example

end K6Rs
