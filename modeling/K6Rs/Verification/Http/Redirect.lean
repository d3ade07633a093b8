import K6Rs.Model.HyperClient

/-! # Where the headers of the caller go along a redirect chain

A redirect keeps the caller's headers but for the ones that describe a dropped body, so
each hop gets the credentials that the first request had. -/

namespace K6Rs

variable {Ip Net : Type} (lib : NetLib Ip Net) (cfg : HyperConfig Ip Net)

/-- `Authorization`, `Cookie` and `Host`, in any letter case. -/
def isCredential (header : Str × Str) : Bool :=
  ["authorization".toList, "cookie".toList, "host".toList].any (Str.eqIgnoreAsciiCase header.1)

def credentials (headers : Headers) : Headers := headers.filter isCredential

/-- The host of the URL of a request. -/
def originHost (req : HyperRequest) : Str := ((lib.parseUri req.url).bind HttpUri.host).getD []

/-- The credentials of the caller are sent to the original host only. -/
def Confined (req : HyperRequest) (sent : List SentRequest) : Prop :=
  ∀ s ∈ sent, ∀ header ∈ credentials req.headers, header ∈ s.headers →
    Str.eqIgnoreAsciiCase s.host (originHost lib req) = true

instance (req : HyperRequest) (sent : List SentRequest) : Decidable (Confined lib req sent) :=
  inferInstanceAs (Decidable (∀ s ∈ sent, ∀ header ∈ credentials req.headers,
    header ∈ s.headers → Str.eqIgnoreAsciiCase s.host (originHost lib req) = true))

/-- The hosts of the redirect chain that the server's answers make of a URL. -/
def redirectHosts (url : Str) (redirectsFollowed : ℕ) : List Exchange → List Str
  | [] => []
  | exchange :: rest =>
      match Route.ofUrl lib cfg url, exchange with
      | .error _, _ => []
      | .ok _, .unsent _ => []
      | .ok route, .broken _ => [route.host]
      | .ok route, .answered response =>
          match redirectTarget lib response url with
          | .ok (some next) =>
              if cfg.maxRedirects ≤ redirectsFollowed then [route.host]
              else route.host :: redirectHosts next (redirectsFollowed + 1) rest
          | _ => [route.host]

/-! ## What a redirect keeps -/

theorem eqIgnoreAsciiCase_iff {s t : Str} :
    Str.eqIgnoreAsciiCase s t = true ↔ Str.asciiLower s = Str.asciiLower t := by
  simp [Str.eqIgnoreAsciiCase]

/-- A credential is none of the headers that describe a body. -/
theorem not_content_of_isCredential {header : Str × Str} (h : isCredential header = true) :
    Str.eqIgnoreAsciiCase header.1 "content-length".toList = false ∧
      Str.eqIgnoreAsciiCase header.1 "content-type".toList = false := by
  simp only [isCredential, List.any_cons, List.any_nil, Bool.or_false, Bool.or_eq_true,
    eqIgnoreAsciiCase_iff] at h
  simp only [Str.eqIgnoreAsciiCase]
  rcases h with h | h | h <;> rw [h] <;> decide

theorem mem_redirectedRequest {req : HyperRequest} {header : Str × Str}
    (h : isCredential header = true) (hmem : header ∈ req.headers) (next : Str) (status : ℕ) :
    header ∈ (redirectedRequest req next status).headers := by
  rw [redirectedRequest]
  split
  · obtain ⟨hlength, htype⟩ := not_content_of_isCredential h
    refine List.mem_filter.mpr ⟨hmem, ?_⟩
    rw [hlength, htype]
    rfl
  · exact hmem

theorem url_redirectedRequest (req : HyperRequest) (next : Str) (status : ℕ) :
    (redirectedRequest req next status).url = next := by
  rw [redirectedRequest]
  split <;> rfl

theorem mem_requestHeaders {req : HyperRequest} {header : Str × Str}
    (h : header ∈ req.headers) (authority userAgent : Str) :
    header ∈ requestHeaders req authority userAgent :=
  List.mem_cons_of_mem _ (List.mem_append_right _ h)

/-! ## The loop -/

/-- One round of the loop: it ends with at most one request, or sends one and goes on with
the redirected request. -/
theorem sendInner_cons (userAgent : Str) (current : HyperRequest) (followed : ℕ)
    (exchange : Exchange) (rest : List Exchange) :
    ((sendInner lib cfg userAgent current followed (exchange :: rest)).1 = [] ∧
      redirectHosts lib cfg current.url followed (exchange :: rest) = []) ∨
    ∃ route, Route.ofUrl lib cfg current.url = .ok route ∧
      ∃ sent, sent = (⟨route.host, current.method,
          requestHeaders current route.originAuthority userAgent, current.url,
          current.body.getD []⟩ : SentRequest) ∧
        (((sendInner lib cfg userAgent current followed (exchange :: rest)).1 = [sent] ∧
          redirectHosts lib cfg current.url followed (exchange :: rest) = [route.host]) ∨
        ∃ next status,
          (sendInner lib cfg userAgent current followed (exchange :: rest)).1 =
            sent :: (sendInner lib cfg userAgent (redirectedRequest current next status)
              (followed + 1) rest).1 ∧
          redirectHosts lib cfg current.url followed (exchange :: rest) =
            route.host :: redirectHosts lib cfg next (followed + 1) rest) := by
  cases hroute : Route.ofUrl lib cfg current.url with
  | error detail => exact .inl (by simp [sendInner, redirectHosts, hroute])
  | ok route =>
      cases exchange with
      | unsent detail => exact .inl (by simp [sendInner, redirectHosts, hroute])
      | broken detail =>
          exact .inr ⟨route, rfl, _, rfl, .inl (by simp [sendInner, redirectHosts, hroute])⟩
      | answered response =>
          refine .inr ⟨route, rfl, _, rfl, ?_⟩
          cases htarget : redirectTarget lib response current.url with
          | error detail => exact .inl (by simp [sendInner, redirectHosts, hroute, htarget])
          | ok target =>
              cases target with
              | none => exact .inl (by simp [sendInner, redirectHosts, hroute, htarget])
              | some next =>
                  by_cases hlimit : cfg.maxRedirects ≤ followed
                  · refine .inl ⟨?_, by simp [redirectHosts, hroute, htarget, hlimit]⟩
                    simp only [sendInner, hroute, htarget, hlimit, if_true]
                    split <;> rfl
                  · have hzero : cfg.maxRedirects ≠ 0 := by omega
                    refine .inr ⟨next, response.status, ?_, ?_⟩
                    · simp [sendInner, hroute, htarget, hlimit, hzero]
                    · simp [redirectHosts, hroute, htarget, hlimit]

theorem hosts_sendInner (userAgent : Str) (current : HyperRequest) (followed : ℕ)
    (exchanges : List Exchange) :
    (sendInner lib cfg userAgent current followed exchanges).1.map SentRequest.host =
      redirectHosts lib cfg current.url followed exchanges := by
  induction exchanges generalizing current followed with
  | nil => rfl
  | cons exchange rest ih =>
      rcases sendInner_cons lib cfg userAgent current followed exchange rest with
        ⟨hsent, hhosts⟩ | ⟨route, -, sent, rfl, ⟨hsent, hhosts⟩ | ⟨next, status, hsent, hhosts⟩⟩
      · rw [hsent, hhosts]
        rfl
      · rw [hsent, hhosts]
        rfl
      · rw [hsent, hhosts, List.map_cons, ih, url_redirectedRequest]

/-- Every request of the chain carries each credential of the first. -/
theorem credential_sent (userAgent : Str) {header : Str × Str} (h : isCredential header = true)
    (current : HyperRequest) (followed : ℕ) (exchanges : List Exchange)
    (hmem : header ∈ current.headers) :
    ∀ s ∈ (sendInner lib cfg userAgent current followed exchanges).1, header ∈ s.headers := by
  induction exchanges generalizing current followed with
  | nil => exact nofun
  | cons exchange rest ih =>
      rcases sendInner_cons lib cfg userAgent current followed exchange rest with
        ⟨hsent, -⟩ | ⟨route, -, sent, rfl, ⟨hsent, -⟩ | ⟨next, status, hsent, -⟩⟩
      · rw [hsent]
        exact nofun
      · rw [hsent]
        intro s hs
        rw [List.mem_singleton.mp hs]
        exact mem_requestHeaders hmem _ _
      · rw [hsent]
        intro s hs
        rcases List.mem_cons.mp hs with rfl | hs
        · exact mem_requestHeaders hmem _ _
        · exact ih _ _ (mem_redirectedRequest h hmem next status) s hs

/-- The credentials stay with the original host exactly when there are none, or the chain
never leaves that host. -/
theorem confined_iff (userAgent : Str) (req : HyperRequest) (exchanges : List Exchange) :
    Confined lib req (sendInner lib cfg userAgent req 0 exchanges).1 ↔
      credentials req.headers = [] ∨
        ∀ host ∈ redirectHosts lib cfg req.url 0 exchanges,
          Str.eqIgnoreAsciiCase host (originHost lib req) = true := by
  rw [← hosts_sendInner lib cfg userAgent req 0 exchanges]
  constructor
  · intro h
    by_cases hnone : credentials req.headers = []
    · exact .inl hnone
    · obtain ⟨header, hheader⟩ := List.exists_mem_of_ne_nil _ hnone
      obtain ⟨hmem, hcred⟩ := List.mem_filter.mp hheader
      refine .inr fun host hhost => ?_
      obtain ⟨s, hs, rfl⟩ := List.mem_map.mp hhost
      exact h s hs header hheader
        (credential_sent lib cfg userAgent hcred req 0 exchanges hmem s hs)
  · rintro (hnone | hsame) s hs header hheader hmem
    · rw [hnone] at hheader
      cases hheader
    · exact hsame s.host (List.mem_map_of_mem hs)

/-- The URLs of two hosts, and the configuration without options. -/
def twoHosts : NetLib Unit Unit where
  parseIp := fun _ => none
  showIp := fun _ => []
  contains := fun _ _ => false
  parseUri url :=
    if url = "http://a.example/".toList then
      some ⟨some "http".toList, some "a.example".toList, none⟩
    else if url = "http://b.example/".toList then
      some ⟨some "http".toList, some "b.example".toList, none⟩
    else none
  joinUrl _ location := some location

def plainConfig (Ip Net : Type) : HyperConfig Ip Net where
  noConnectionReuse := false
  blacklistIps := []
  blockHostnames := []
  hosts := ∅
  maxRedirects := 10
  localIps := []
  httpProxy := none
  httpsProxy := none
  noProxy := []

theorem not_confined_of_redirect :
    ¬∀ (lib : NetLib Unit Unit) (cfg : HyperConfig Unit Unit) (userAgent : Str)
      (req : HyperRequest) (exchanges : List Exchange),
      Confined lib req (sendInner lib cfg userAgent req 0 exchanges).1 := by
  intro h
  let req : HyperRequest :=
    ⟨.get, "http://a.example/".toList, [("Authorization".toList, "secret".toList)], none⟩
  have hsent := h twoHosts (plainConfig Unit Unit) "k6-rs".toList req
    [.answered ⟨302, [("location".toList, "http://b.example/".toList)]⟩, .answered ⟨200, []⟩]
  exact absurd hsent (by decide +kernel)

end K6Rs
