import K6Rs.Verification.CookieJar.Typing

/-! # Whose cookies a request carries

A cookie goes to the requests for its domain, the text that is cut out of the URL. That text
is the host of a plain URL; of a URL with a password it is the user name. -/

namespace K6Rs

open Js

namespace CookieJar

variable {realm : Realm} {stored : Str → Str → Str → Prop}

/-! ## Responses and requests -/

/-- The response stores no cookie under the name `__proto__`, and none for that domain. -/
def Ordinary (response : JarResponse) : Prop :=
  ∀ domain, urlDomain response.url = some domain → ∀ cookie ∈ setCookies response.headers,
    domain ≠ "__proto__".toList ∧ cookie.1 ≠ "__proto__".toList

/-- One of the responses set the cookie for the domain. -/
def StoredBy (responses : List JarResponse) (domain name value : Str) : Prop :=
  ∃ response ∈ responses, urlDomain response.url = some domain ∧
    (name, value) ∈ setCookies response.headers

theorem typed_foldl {cookies : List (Str × Str)} {domain : Str}
    (hcookies : ∀ cookie ∈ cookies, domain ≠ "__proto__".toList ∧
      cookie.1 ≠ "__proto__".toList ∧ stored domain cookie.1 cookie.2)
    {h : Heap} {kind : ℕ → Option Kind} (ht : Typed realm stored h kind) :
    ∃ kind', Typed realm stored
      (cookies.foldl (fun h cookie => CookieJar.set realm h domain cookie.1 cookie.2) h) kind' := by
  induction cookies generalizing h kind with
  | nil => exact ⟨kind, ht⟩
  | cons cookie rest ih =>
      obtain ⟨hdomain, hname, hstored⟩ := hcookies cookie List.mem_cons_self
      obtain ⟨kind', ht'⟩ := ht.set hdomain hname hstored
      exact ih (fun c hc => hcookies c (List.mem_cons_of_mem _ hc)) ht'

theorem Typed.extractCookies {responses : List JarResponse} {h : Heap} {kind : ℕ → Option Kind}
    (ht : Typed realm (StoredBy responses) h kind) {response : JarResponse}
    (hordinary : Ordinary response) :
    ∃ kind', Typed realm (StoredBy (response :: responses))
      (CookieJar.extractCookies realm h response.headers response.url) kind' := by
  have hmore : Typed realm (StoredBy (response :: responses)) h kind :=
    ht.more fun domain name value ⟨earlier, hmem, hset⟩ =>
      ⟨earlier, List.mem_cons_of_mem _ hmem, hset⟩
  rw [CookieJar.extractCookies]
  cases hdomain : urlDomain response.url with
  | none => exact ⟨kind, hmore⟩
  | some domain =>
      refine typed_foldl (fun cookie hcookie => ?_) hmore
      obtain ⟨hproto, hname⟩ := hordinary domain hdomain cookie hcookie
      exact ⟨hproto, hname, response, List.mem_cons_self, hdomain, hcookie⟩

theorem mem_of_mapM {α β : Type} {f : α → Option β} {l : List α} {l' : List β}
    (h : l.mapM f = some l') {b : β} (hb : b ∈ l') : ∃ a ∈ l, f a = some b := by
  induction l generalizing l' with
  | nil =>
      cases h
      cases hb
  | cons a l ih =>
      rw [List.mapM_cons] at h
      obtain ⟨b', hb', h⟩ := Option.bind_eq_some_iff.mp h
      obtain ⟨rest, hrest, h⟩ := Option.bind_eq_some_iff.mp h
      cases h
      rcases List.mem_cons.mp hb with rfl | hb
      · exact ⟨a, List.mem_cons_self, hb'⟩
      · obtain ⟨a', ha', heq⟩ := ih hrest hb
        exact ⟨a', List.mem_cons_of_mem _ ha', heq⟩

/-- What the header for a URL is made from. -/
theorem Typed.cookiesForURL {h : Heap} {kind : ℕ → Option Kind} (ht : Typed realm stored h kind)
    (url : Str) :
    ∃ r h' kind', CookieJar.cookiesForURL realm h url = (.ref r, h') ∧
      Typed realm stored h' kind' ∧
      (kind' r = some .inert ∨ ∃ domain, urlDomain url = some domain ∧
        kind' r = some (.cell domain)) := by
  have hempty : Fits realm stored kind (plain realm []) .inert :=
    ⟨nofun, fun q hq => by cases hq; exact ht.root⟩
  obtain ⟨kind', -, hnew, ht'⟩ := ht.alloc hempty
  rw [CookieJar.cookiesForURL]
  cases hdomain : urlDomain url with
  | none => exact ⟨_, _, kind', rfl, ht', .inl hnew⟩
  | some domain =>
      rcases ht.get_jar domain with hget | ⟨r, hget, hr⟩
      · simp only [hget]
        exact ⟨_, _, kind', rfl, ht', .inl hnew⟩
      · simp only [hget]
        refine ⟨r, h, kind, rfl, ht, ?_⟩
        rcases hr with hr | ⟨-, hr⟩
        · exact .inr ⟨domain, rfl, hr⟩
        · exact .inl hr

/-- The cookies of a header were stored for the domain of its URL. -/
theorem Typed.buildCookieHeader {h : Heap} {kind : ℕ → Option Kind}
    (ht : Typed realm stored h kind) {url : Str} {parts : List (Str × Val)}
    (hparts : CookieJar.buildCookieHeader realm h url = some parts) :
    ∀ part ∈ parts, ∃ domain value, urlDomain url = some domain ∧ part.2 = .str value ∧
      stored domain part.1 value := by
  intro part hpart
  rw [CookieJar.buildCookieHeader] at hparts
  split at hparts
  · cases hparts
    cases hpart
  · obtain ⟨r, h', kind', hcookies, ht', hr⟩ := ht.cookiesForURL url
    rw [hcookies] at hparts
    obtain ⟨name, hname, hvalue⟩ := mem_of_mapM hparts hpart
    rcases hr with hr | ⟨domain, hdomain, hr⟩
    · exact absurd hname (ht'.forIn_inert hr name)
    · obtain ⟨value, hcookie, hstored⟩ := ht'.forIn_cell hr hname
      rw [hcookie] at hvalue
      cases hvalue
      exact ⟨domain, value, hdomain, rfl, hstored⟩

theorem Typed.attached {h : Heap} {kind : ℕ → Option Kind}
    (ht : Typed realm stored h kind) {url : Str} {headers : List (Str × Str)}
    {parts : List (Str × Val)} (hparts : CookieJar.attached realm h url headers = some parts) :
    ∀ part ∈ parts, ∃ domain value, urlDomain url = some domain ∧ part.2 = .str value ∧
      stored domain part.1 value := by
  rw [CookieJar.attached] at hparts
  split at hparts
  · obtain ⟨all, hall, rfl⟩ := Option.map_eq_some_iff.mp hparts
    split
    · exact nofun
    · exact ht.buildCookieHeader hall
  · cases hparts

/-- A `Cookie` header of the caller is sent as it is. -/
theorem cookieHeader_of_given {h : Heap} {url text : Str} {headers : List (Str × Str)}
    (hgiven : headers.lookup "Cookie".toList = some text) (htext : text ≠ [])
    {header : Option Str} (hheader : cookieHeader realm h url headers [] = some header) :
    header = some text := by
  obtain ⟨parts, hparts, rfl⟩ := Option.map_eq_some_iff.mp hheader
  have hcookie : (headerProp realm h headers "Cookie".toList).truthy = true := by
    rw [headerProp, hgiven]
    simpa only [Val.truthy, Bool.not_eq_true', List.isEmpty_eq_false_iff] using htext
  rw [attached] at hparts
  split at hparts
  · obtain ⟨all, -, rfl⟩ := Option.map_eq_some_iff.mp hparts
    simp only [hcookie, Bool.true_or, if_true, List.isEmpty_nil, hgiven]
  · cases hparts

end CookieJar

/-! ## Every run -/

namespace JarState

variable (hostOf : Str → Option Str)

/-- Every cookie on a request was set by an earlier response of the same host. -/
def Isolated (s : JarState) : Prop :=
  ∀ a ∈ s.attached, ∃ response ∈ a.earlier, hostOf response.url = hostOf a.url ∧
    ∃ value, a.value = .str value ∧ (a.name, value) ∈ setCookies response.headers

/-- The responses with cookies that are taken for the domain of a request have its host, and
no cookie or domain is named `__proto__`. -/
def Distinct (s : JarState) : JarEvent → Prop
  | .response response => CookieJar.Ordinary response
  | .request url _ => ∀ response ∈ s.responses, setCookies response.headers ≠ [] →
      urlDomain response.url = urlDomain url → hostOf response.url = hostOf url

variable {hostOf} {realm : Realm}

theorem isolated_request {s : JarState} {kind : ℕ → Option Kind}
    (ht : CookieJar.Typed realm (CookieJar.StoredBy s.responses) s.heap kind)
    (hisolated : s.Isolated hostOf) {url : Str} {headers : List (Str × Str)}
    (hdistinct : s.Distinct hostOf (.request url headers)) {parts : List (Str × Val)}
    (hparts : CookieJar.attached realm s.heap url headers = some parts) :
    Isolated hostOf { s with
      attached := (parts.map fun part => ⟨url, part.1, part.2, s.responses⟩) ++ s.attached } := by
  intro a ha
  rcases List.mem_append.mp ha with ha | ha
  · obtain ⟨part, hpart, rfl⟩ := List.mem_map.mp ha
    obtain ⟨domain, value, hdomain, hvalue, response, hmem, hurl, hset⟩ :=
      ht.attached hparts part hpart
    exact ⟨response, hmem, hdistinct response hmem (List.ne_nil_of_mem hset) (hurl.trans
      hdomain.symm), value, hvalue, hset⟩
  · exact hisolated a ha

/-- In a run in which no two hosts are taken for one domain, no cookie goes to another host. -/
theorem isolated_of_distinct {es : List JarEvent} {s : JarState}
    (h : (jarSystem realm).Runs (Distinct hostOf) es s) : s.Isolated hostOf := by
  have hinv : (∃ kind, CookieJar.Typed realm (CookieJar.StoredBy s.responses) s.heap kind) ∧
      s.Isolated hostOf := by
    refine h.invariant (I := fun s =>
      (∃ kind, CookieJar.Typed realm (CookieJar.StoredBy s.responses) s.heap kind) ∧
        s.Isolated hostOf) ?_ ?_
    · rintro s rfl
      exact ⟨⟨_, CookieJar.typed_new⟩, nofun⟩
    · rintro s e s' ⟨⟨kind, ht⟩, hisolated⟩ hdistinct hs
      cases e with
      | response response =>
          cases hs
          exact ⟨ht.extractCookies hdistinct, hisolated⟩
      | request url headers =>
          obtain ⟨parts, hparts, rfl⟩ := Option.map_eq_some_iff.mp hs
          exact ⟨⟨kind, ht⟩, isolated_request ht hisolated hdistinct hparts⟩
  exact hinv.2

/-! ## A run -/

instance (response : JarResponse) : Decidable (CookieJar.Ordinary response) :=
  inferInstanceAs (Decidable (∀ domain ∈ urlDomain response.url,
    ∀ cookie ∈ setCookies response.headers,
      domain ≠ "__proto__".toList ∧ cookie.1 ≠ "__proto__".toList))

instance (s : JarState) (e : JarEvent) : Decidable (s.Distinct hostOf e) :=
  match e with
  | .response response => inferInstanceAs (Decidable (CookieJar.Ordinary response))
  | .request url _ => inferInstanceAs (Decidable (∀ response ∈ s.responses,
      setCookies response.headers ≠ [] → urlDomain response.url = urlDomain url →
        hostOf response.url = hostOf url))

/-- The built-in objects: `Object.prototype`, `Function.prototype`, `Object` and
`Object.assign`. -/
def builtins : Heap where
  obj
    | 0 => ⟨none, [("__proto__".toList, .proto), ("constructor".toList, .data (.ref 2) false true)]⟩
    | 1 => ⟨some 0, []⟩
    | 2 => ⟨some 1, [("assign".toList, .data (.ref 3) false true)]⟩
    | _ => ⟨some 1, []⟩
  size := 4

def smallRealm : Realm where
  heap := builtins
  objectProto := 0
  functionProto := 1
  object := 2
  assign := 3
  methodName r := if r = 2 then some "constructor".toList else none
  size := by decide
  objectRoot := rfl
  functionRoot := rfl
  protoAccessor := by decide
  methods p hp hne := by
    simp only [builtins, List.mem_cons, List.not_mem_nil, or_false] at hp
    rcases hp with rfl | rfl
    · exact absurd rfl hne
    · exact ⟨2, true, rfl, rfl⟩
  functions r k h := by
    split at h
    · subst r
      decide
    · cases h
  hidden r hr := by
    rcases hr with rfl | rfl | hr
    · decide
    · decide
    · have hobject : r = 2 := by
        by_contra hne
        simp [hne] at hr
      subst hobject
      decide

/-- Two URLs with a user name and a password. -/
def twoLogins (url : Str) : Option Str :=
  if url = "http://u:p@a.example/".toList then some "a.example".toList
  else if url = "http://u:p@b.example/".toList then some "b.example".toList
  else none

/-- The host a.example sets a cookie, and a request follows. -/
def cookieThen (url : Str) : List JarEvent :=
  [.response ⟨"http://u:p@a.example/".toList, [("set-cookie".toList, "s=1".toList)]⟩,
    .request url []]

theorem isolated_of_distinct_sameHost : ∃ s : JarState,
    (jarSystem smallRealm).Runs (Distinct twoLogins) (cookieThen "http://u:p@a.example/".toList) s ∧
      s.attached ≠ [] ∧ s.Isolated twoLogins := by
  have hexec : ∃ s : JarState, (jarSystem smallRealm).Runs
      (fun s e => decide (Distinct twoLogins s e) = true)
      (cookieThen "http://u:p@a.example/".toList) s ∧ s.attached.isEmpty = false :=
    StepSystem.exists_runs_of_execWhen _ rfl (by decide +kernel)
  obtain ⟨s, hrun, hattached⟩ := hexec
  have hrun' := hrun.mono fun s e => of_decide_eq_true
  exact ⟨s, hrun', by simpa using hattached, isolated_of_distinct hrun'⟩

/-- The text before the first colon, the user name, is taken for the domain. -/
theorem not_isolated_of_password :
    ¬∀ (hostOf : Str → Option Str) (realm : Realm) (es : List JarEvent) (s : JarState),
      (jarSystem realm).AnyRun es s → s.Isolated hostOf := by
  intro h
  have hexec : ∃ s : JarState, (jarSystem smallRealm).AnyRun
      (cookieThen "http://u:p@b.example/".toList) s ∧
      ∃ a ∈ s.attached, ∀ response ∈ a.earlier, twoLogins response.url ≠ twoLogins a.url :=
    StepSystem.exists_run_of_exec _ rfl (by decide +kernel)
  obtain ⟨s, hrun, a, ha, hother⟩ := hexec
  obtain ⟨response, hmem, hsame, -⟩ := h twoLogins smallRealm _ s hrun a ha
  exact hother response hmem hsame

end JarState

/-! ## URLs without a password -/

/-- A URL whose user information has no password and whose host is a name or an IPv4
address. -/
structure PlainUrl where
  https : Bool
  user : Option Str
  host : Str
  port : Option ℕ
  rest : Str
  userPlain : ∀ u ∈ user, ∀ c ∈ u, c ∉ ['/', ':', '?', '#']
  hostPlain : ∀ c ∈ host, c ∉ ['/', ':', '?', '#', '@']
  hostNonempty : host ≠ []
  restPlain : ∀ c ∈ rest.head?, c ∈ ['/', '?', '#']

namespace PlainUrl

/-- The user name and the host. -/
def authority (u : PlainUrl) : Str := ((u.user.map (· ++ ['@'])).getD []) ++ u.host

def text (u : PlainUrl) : Str :=
  (if u.https then "https://".toList else "http://".toList) ++ u.authority ++
    ((u.port.map fun p => ':' :: Nat.toDigits 10 p).getD []) ++ u.rest

/-- The host in a domain of the jar. -/
def domainHost (domain : Str) : Str :=
  (domain.takeWhile fun c => c ≠ '?' && c ≠ '#').rtakeWhile (· ≠ '@')

theorem authority_plain (u : PlainUrl) : ∀ c ∈ u.authority, c ∉ ['/', ':', '?', '#'] := by
  intro c hc
  rcases List.mem_append.mp hc with hc | hc
  · cases huser : u.user with
    | none => simp [huser] at hc
    | some user =>
        simp only [huser, Option.map_some, Option.getD_some, List.mem_append,
          List.mem_singleton] at hc
        rcases hc with hc | rfl
        · exact u.userPlain user huser c hc
        · decide
  · have := u.hostPlain c hc
    simp_all

theorem urlDomain_scheme (https : Bool) (rest : Str) :
    urlDomain ((if https then "https://".toList else "http://".toList) ++ rest) =
      let domain := rest.takeWhile fun c => c ≠ '/' && c ≠ ':'
      if domain.isEmpty then none else some domain := by
  cases https <;> rfl

theorem urlDomain_text (u : PlainUrl) :
    ∃ tail, urlDomain u.text = some (u.authority ++ tail) ∧ ∀ c ∈ tail.head?, c ∈ ['?', '#'] := by
  let suffix := ((u.port.map fun p => ':' :: Nat.toDigits 10 p).getD []) ++ u.rest
  have hall : ∀ c ∈ u.authority, (c ≠ '/' && c ≠ ':') = true := by
    intro c hc
    have := u.authority_plain c hc
    simp_all
  refine ⟨suffix.takeWhile fun c => c ≠ '/' && c ≠ ':', ?_, ?_⟩
  · have htext : u.text = (if u.https then "https://".toList else "http://".toList) ++
        (u.authority ++ suffix) := by simp only [text, suffix, List.append_assoc]
    have hnonempty : (u.authority ++ suffix.takeWhile fun c => c ≠ '/' && c ≠ ':').isEmpty =
        false := by
      simp [authority, u.hostNonempty]
    rw [htext, urlDomain_scheme, List.takeWhile_append_of_pos hall]
    simp only [hnonempty, Bool.false_eq_true, if_false]
  · intro c hc
    cases hport : u.port with
    | some port => simp [suffix, hport] at hc
    | none =>
        cases hrest : u.rest with
        | nil => simp [suffix, hport, hrest] at hc
        | cons d rest =>
            have hd := u.restPlain d (by rw [hrest]; rfl)
            simp only [List.mem_cons, List.not_mem_nil, or_false] at hd
            rcases hd with rfl | rfl | rfl
            · simp [suffix, hport, hrest] at hc
            · simp [suffix, hport, hrest] at hc
              simp [← hc]
            · simp [suffix, hport, hrest] at hc
              simp [← hc]

theorem domainHost_authority (u : PlainUrl) {tail : Str}
    (htail : ∀ c ∈ tail.head?, c ∈ ['?', '#']) :
    domainHost (u.authority ++ tail) = u.host := by
  have hquery : tail.takeWhile (fun c => c ≠ '?' && c ≠ '#') = [] := by
    cases tail with
    | nil => rfl
    | cons c tail =>
        have hc := htail c rfl
        simp only [List.mem_cons, List.not_mem_nil, or_false] at hc
        rcases hc with rfl | rfl <;> rfl
  have hall : ∀ c ∈ u.authority, (c ≠ '?' && c ≠ '#') = true := by
    intro c hc
    have := u.authority_plain c hc
    simp_all
  have hhost : ∀ c ∈ u.host.reverse, decide (c ≠ '@') = true := by
    intro c hc
    have := u.hostPlain c (List.mem_reverse.mp hc)
    simp_all
  rw [domainHost, List.takeWhile_append_of_pos hall, hquery, List.append_nil, authority,
    List.rtakeWhile, List.reverse_append, List.takeWhile_append_of_pos hhost]
  cases u.user <;> simp

/-- The host of a plain URL is that of its domain, so that no two are taken for one. -/
theorem hostOf_eq_of_urlDomain {hostOf : Str → Option Str}
    (hhost : ∀ u : PlainUrl, hostOf u.text = some (Str.asciiLower u.host)) (u v : PlainUrl)
    (h : urlDomain u.text = urlDomain v.text) : hostOf u.text = hostOf v.text := by
  obtain ⟨tail, hu, htail⟩ := u.urlDomain_text
  obtain ⟨tail', hv, htail'⟩ := v.urlDomain_text
  rw [hu, hv, Option.some.injEq] at h
  rw [hhost, hhost, ← u.domainHost_authority htail, h, v.domainHost_authority htail']

end PlainUrl

end K6Rs
