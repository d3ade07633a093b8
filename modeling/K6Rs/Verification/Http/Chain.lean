import K6Rs.Verification.Http.Redirect

/-! # The requests of a redirect chain

Which answers are followed and with what request, and which answer is returned in the end. -/

namespace K6Rs

variable {Ip Net : Type}

/-- The answer sends the client to another URL. -/
def IsRedirect (response : HyperResponse) : Prop :=
  response.status ∈ [301, 302, 303, 307, 308] ∧
    headerValue response.headers "location".toList ≠ none

theorem redirectTarget_eq_none_iff {lib : NetLib Ip Net} {response : HyperResponse} {url : Str} :
    redirectTarget lib response url = .ok none ↔ ¬IsRedirect response := by
  rw [redirectTarget, IsRedirect]
  by_cases hstatus : response.status ∈ [301, 302, 303, 307, 308]
  · rw [if_neg (not_not.mpr hstatus)]
    cases headerValue response.headers "location".toList with
    | none => exact iff_of_true rfl fun h => h.2 rfl
    | some location =>
        refine iff_of_false ?_ (not_not.mpr ⟨hstatus, nofun⟩)
        simp only
        split
        · exact nofun
        · exact nofun
  · rw [if_pos hstatus]
    exact iff_of_true rfl fun h => hstatus h.1

/-- The request that is sent for `current` on a route. -/
def sentFor (userAgent : Str) (current : HyperRequest) (route : Route Ip) : SentRequest where
  host := route.host
  method := current.method
  headers := requestHeaders current route.originAuthority userAgent
  url := current.url
  body := current.body.getD []

/-- The rounds of the loop, by how each one ends. -/
inductive HyperRun (lib : NetLib Ip Net) (cfg : HyperConfig Ip Net) (userAgent : Str) :
    HyperRequest → ℕ → List Exchange → List SentRequest → Option (Except Str HyperResponse) →
    Prop where
  | waits (current followed) : HyperRun lib cfg userAgent current followed [] [] none
  | unsent {current followed exchange rest detail}
      (h : (∃ e, Route.ofUrl lib cfg current.url = .error e) ∨ ∃ e, exchange = .unsent e) :
      HyperRun lib cfg userAgent current followed (exchange :: rest) [] (some (.error detail))
  | failed {current followed exchange rest route detail}
      (hroute : Route.ofUrl lib cfg current.url = .ok route) (hsent : ∀ e, exchange ≠ .unsent e)
      (h : ∀ response, exchange = .answered response →
        (∃ e, redirectTarget lib response current.url = .error e) ∨
          0 < cfg.maxRedirects ∧ cfg.maxRedirects ≤ followed ∧
            ∃ next, redirectTarget lib response current.url = .ok (some next)) :
      HyperRun lib cfg userAgent current followed (exchange :: rest)
        [sentFor userAgent current route] (some (.error detail))
  | returned {current followed response rest route target}
      (hroute : Route.ofUrl lib cfg current.url = .ok route)
      (htarget : redirectTarget lib response current.url = .ok target)
      (h : target = none ∨ cfg.maxRedirects = 0) :
      HyperRun lib cfg userAgent current followed (.answered response :: rest)
        [sentFor userAgent current route] (some (.ok response))
  | follows {current followed response rest route next more result}
      (hroute : Route.ofUrl lib cfg current.url = .ok route)
      (htarget : redirectTarget lib response current.url = .ok (some next))
      (hlimit : followed < cfg.maxRedirects) :
      HyperRun lib cfg userAgent (redirectedRequest current next response.status) (followed + 1)
        rest
        more result →
      HyperRun lib cfg userAgent current followed (.answered response :: rest)
        (sentFor userAgent current route :: more) result

section

variable {lib : NetLib Ip Net} {cfg : HyperConfig Ip Net} {userAgent : Str} {current : HyperRequest}
  {followed : ℕ} {exchanges : List Exchange} {sent : List SentRequest}
  {result : Option (Except Str HyperResponse)}

theorem sendInner_run (lib : NetLib Ip Net) (cfg : HyperConfig Ip Net) (userAgent : Str)
    (current : HyperRequest) (followed : ℕ) (exchanges : List Exchange) :
    HyperRun lib cfg userAgent current followed exchanges
      (sendInner lib cfg userAgent current followed exchanges).1
      (sendInner lib cfg userAgent current followed exchanges).2 := by
  induction exchanges generalizing current followed with
  | nil => exact .waits current followed
  | cons exchange rest ih =>
      cases hroute : Route.ofUrl lib cfg current.url with
      | error detail =>
          simp only [sendInner, hroute]
          exact .unsent (.inl ⟨detail, hroute⟩)
      | ok route =>
          cases exchange with
          | unsent detail =>
              simp only [sendInner, hroute]
              exact .unsent (.inr ⟨detail, rfl⟩)
          | broken detail =>
              simp only [sendInner, hroute]
              exact .failed hroute (by rintro _ ⟨⟩) (by rintro _ ⟨⟩)
          | answered response =>
              cases htarget : redirectTarget lib response current.url with
              | error detail =>
                  simp only [sendInner, hroute, htarget]
                  refine .failed hroute (by rintro _ ⟨⟩) fun _ h => ?_
                  cases h
                  exact .inl ⟨detail, htarget⟩
              | ok target =>
                  cases target with
                  | none =>
                      simp only [sendInner, hroute, htarget]
                      exact .returned hroute htarget (.inl rfl)
                  | some next =>
                      simp only [sendInner, hroute, htarget]
                      by_cases hzero : cfg.maxRedirects = 0
                      · rw [if_pos hzero]
                        exact .returned hroute htarget (.inr hzero)
                      by_cases hlimit : cfg.maxRedirects ≤ followed
                      · rw [if_neg hzero, if_pos hlimit]
                        refine .failed hroute (by rintro _ ⟨⟩) fun _ h => ?_
                        cases h
                        exact .inr ⟨Nat.pos_of_ne_zero hzero, hlimit, next, htarget⟩
                      · rw [if_neg hzero, if_neg hlimit]
                        exact .follows hroute htarget (Nat.lt_of_not_le hlimit) (ih _ _)

theorem method_body_redirectedRequest (req : HyperRequest) (next : Str) (status : ℕ) :
    ((redirectedRequest req next status).method, (redirectedRequest req next status).body.getD []) =
      if status ∈ [301, 302, 303] ∧ req.method = .post then (.get, [])
      else (req.method, req.body.getD []) := by
  rw [redirectedRequest]
  split
  · rfl
  · rfl

namespace HyperRun

theorem length_le (h : HyperRun lib cfg userAgent current followed exchanges sent result)
    (hfollowed : followed ≤ cfg.maxRedirects) : sent.length + followed ≤ cfg.maxRedirects + 1 := by
  induction h with
  | waits => exact Nat.le_succ_of_le (by simpa using hfollowed)
  | unsent => exact Nat.le_succ_of_le (by simpa using hfollowed)
  | failed => simpa [Nat.add_comm] using hfollowed
  | returned => simpa [Nat.add_comm] using hfollowed
  | follows _ _ hlimit _ ih =>
      have hmore := ih hlimit
      rw [List.length_cons]
      omega

theorem head (h : HyperRun lib cfg userAgent current followed exchanges sent result)
    {a : SentRequest}
    (ha : sent[0]? = some a) :
    ∃ route, Route.ofUrl lib cfg current.url = .ok route ∧ a = sentFor userAgent current route := by
  cases h with
  | waits => cases ha
  | unsent => cases ha
  | failed hroute => exact ⟨_, hroute, (Option.some.inj ha).symm⟩
  | returned hroute => exact ⟨_, hroute, (Option.some.inj ha).symm⟩
  | follows hroute => exact ⟨_, hroute, (Option.some.inj ha).symm⟩

/-- A request that another one follows got a redirect, and the next request is the redirected
one. -/
theorem consecutive (h : HyperRun lib cfg userAgent current followed exchanges sent result) {i : ℕ}
    {a b : SentRequest} (ha : sent[i]? = some a) (hb : sent[i + 1]? = some b) :
    ∃ response, exchanges[i]? = some (.answered response) ∧
      redirectTarget lib response a.url = .ok (some b.url) ∧
      (b.method, b.body) =
        if response.status ∈ [301, 302, 303] ∧ a.method = .post then (.get, [])
        else (a.method, a.body) := by
  induction h generalizing i with
  | waits => cases ha
  | unsent => cases ha
  | failed => cases hb
  | returned => cases hb
  | @follows current followed response rest route next more result hroute htarget hlimit hrest ih =>
      cases i with
      | succ i => exact ih ha hb
      | zero =>
          cases ha
          obtain ⟨route', -, rfl⟩ := hrest.head hb
          refine ⟨response, rfl, ?_, method_body_redirectedRequest current next response.status⟩
          exact htarget.trans (congrArg (fun url => Except.ok (some url))
            (url_redirectedRequest current next response.status).symm)

/-- A redirect below the limit is followed when its URL can be routed and the next request is
written. -/
theorem continues (h : HyperRun lib cfg userAgent current followed exchanges sent result) {i : ℕ}
    {a : SentRequest} {response : HyperResponse} {next : Str} {route : Route Ip}
      {exchange : Exchange}
    (hlimit : i + followed < cfg.maxRedirects) (ha : sent[i]? = some a)
    (hresponse : exchanges[i]? = some (.answered response))
    (htarget : redirectTarget lib response a.url = .ok (some next))
    (hroute : Route.ofUrl lib cfg next = .ok route) (hexchange : exchanges[i + 1]? = some exchange)
    (hsent : ∀ e, exchange ≠ .unsent e) : ∃ b, sent[i + 1]? = some b ∧ b.url = next := by
  induction h generalizing i with
  | waits => cases ha
  | unsent => cases ha
  | @failed current followed exchange rest route detail _ _ hfailed =>
      cases i with
      | succ i => cases ha
      | zero =>
          cases ha
          rcases hfailed response (Option.some.inj hresponse) with ⟨e, he⟩ | ⟨-, hle, -⟩
          · cases he.symm.trans htarget
          · omega
  | returned _ htarget' hreturned =>
      cases i with
      | succ i => cases ha
      | zero =>
          cases ha
          cases hresponse
          cases htarget.symm.trans htarget'
          rcases hreturned with h | h
          · cases h
          · omega
  | @follows current followed response' rest route' next' more result _ htarget' _ hrest ih =>
      cases i with
      | succ i => exact ih (by omega) ha hresponse hexchange
      | zero =>
          cases ha
          cases hresponse
          cases htarget.symm.trans htarget'
          rw [List.getElem?_cons_succ] at hexchange ⊢
          rw [← url_redirectedRequest current next response.status] at hroute
          cases hrest with
          | waits => cases hexchange
          | unsent hunsent =>
              cases hexchange
              rcases hunsent with ⟨e, he⟩ | ⟨e, he⟩
              · cases he.symm.trans hroute
              · exact (hsent e he).elim
          | failed => exact ⟨_, rfl, url_redirectedRequest current next response.status⟩
          | returned => exact ⟨_, rfl, url_redirectedRequest current next response.status⟩
          | follows => exact ⟨_, rfl, url_redirectedRequest current next response.status⟩

theorem result_of_not_redirect
    (h : HyperRun lib cfg userAgent current followed exchanges sent result)
    {i : ℕ} {a : SentRequest} {response : HyperResponse} (ha : sent[i]? = some a)
    (hresponse : exchanges[i]? = some (.answered response)) (hredirect : ¬IsRedirect response) :
    result = some (.ok response) := by
  induction h generalizing i with
  | waits => cases ha
  | unsent => cases ha
  | @failed current followed exchange rest route detail _ _ hfailed =>
      cases i with
      | succ i => cases ha
      | zero =>
          have hnone := (@redirectTarget_eq_none_iff _ _ lib _ current.url).mpr hredirect
          rcases hfailed response (Option.some.inj hresponse) with ⟨e, he⟩ | ⟨-, -, next, hnext⟩
          · cases he.symm.trans hnone
          · cases hnext.symm.trans hnone
  | returned =>
      cases i with
      | succ i => cases ha
      | zero =>
          cases hresponse
          rfl
  | follows _ htarget _ _ ih =>
      cases i with
      | succ i => exact ih ha hresponse
      | zero =>
          cases hresponse
          cases htarget.symm.trans (redirectTarget_eq_none_iff.mpr hredirect)

/-- What is returned while redirects are followed is the first answer that is none. -/
theorem first_of_ok (h : HyperRun lib cfg userAgent current followed exchanges sent result)
    {response : HyperResponse} (hresult : result = some (.ok response))
      (hpos : 0 < cfg.maxRedirects) :
    ∃ i, sent.length = i + 1 ∧ exchanges[i]? = some (.answered response) ∧ ¬IsRedirect response ∧
      ∀ j < i, ∃ earlier, exchanges[j]? = some (.answered earlier) ∧ IsRedirect earlier := by
  induction h with
  | waits => cases hresult
  | unsent => cases hresult
  | failed => cases hresult
  | returned _ htarget hreturned =>
      cases hresult
      rcases hreturned with rfl | hzero
      · exact ⟨0, rfl, rfl, redirectTarget_eq_none_iff.mp htarget, nofun⟩
      · omega
  | @follows current followed response' rest route next more result _ htarget _ _ ih =>
      obtain ⟨i, hlength, hresponse, hredirect, hearlier⟩ := ih hresult
      refine ⟨i + 1, by rw [List.length_cons, hlength], hresponse, hredirect, fun j hj => ?_⟩
      cases j with
      | succ j => exact hearlier j (Nat.lt_of_succ_lt_succ hj)
      | zero =>
          refine ⟨response', rfl, not_not.mp fun hnone => ?_⟩
          cases htarget.symm.trans (redirectTarget_eq_none_iff.mpr hnone)

/-- Only the method and the body of a POST change. -/
theorem method_body_of_ne_post
    (h : HyperRun lib cfg userAgent current followed exchanges sent result)
    (hmethod : current.method ≠ .post) :
    ∀ a ∈ sent, (a.method, a.body) = (current.method, current.body.getD []) := by
  induction h with
  | waits => exact nofun
  | unsent => exact nofun
  | failed => exact List.forall_mem_singleton.mpr rfl
  | returned => exact List.forall_mem_singleton.mpr rfl
  | @follows current followed response rest route next more result _ _ _ _ ih =>
      have hsame := method_body_redirectedRequest current next response.status
      rw [if_neg fun h => hmethod h.2] at hsame
      rw [hsame] at ih
      refine List.forall_mem_cons.mpr ⟨rfl, ih ?_⟩
      rw [(Prod.mk.inj hsame).1]
      exact hmethod

theorem post_or_get (h : HyperRun lib cfg userAgent current followed exchanges sent result)
    (hmethod : current.method = .post ∨ (current.method, current.body.getD []) = (.get, [])) :
    ∀ a ∈ sent, a.method = .post ∨ (a.method, a.body) = (.get, []) := by
  induction h with
  | waits => exact nofun
  | unsent => exact nofun
  | failed => exact List.forall_mem_singleton.mpr hmethod
  | returned => exact List.forall_mem_singleton.mpr hmethod
  | @follows current followed response rest route next more result _ _ _ _ ih =>
      refine List.forall_mem_cons.mpr ⟨hmethod, ih ?_⟩
      have hnext := method_body_redirectedRequest current next response.status
      split at hnext
      · exact .inr hnext
      · rw [hnext, (Prod.mk.inj hnext).1]
        exact hmethod

end HyperRun

/-! ## The answers that are followed -/

/-- What is sent for the answers of a server, and what is returned. -/
structure FollowsRedirects (lib : NetLib Ip Net) (cfg : HyperConfig Ip Net)
    (exchanges : List Exchange)
    (sent : List SentRequest) (result : Option (Except Str HyperResponse)) : Prop where
  limit : sent.length ≤ cfg.maxRedirects + 1
  disabled : cfg.maxRedirects = 0 → ∀ response, exchanges[0]? = some (.answered response) →
    sent ≠ [] → result = some (.ok response)
  followed : ∀ i a response next route exchange, i < cfg.maxRedirects → sent[i]? = some a →
    exchanges[i]? = some (.answered response) →
    redirectTarget lib response a.url = .ok (some next) → Route.ofUrl lib cfg next = .ok route →
    exchanges[i + 1]? = some exchange → (∀ e, exchange ≠ .unsent e) →
    ∃ b, sent[i + 1]? = some b ∧ b.url = next
  withGet : ∀ i a b response, sent[i]? = some a → sent[i + 1]? = some b →
    exchanges[i]? = some (.answered response) →
    response.status = 303 ∨ response.status ∈ [301, 302] ∧ a.method = .post →
    (b.method = .get ∨ b.method = .head) ∧ b.body = []
  withSame : ∀ i a b response, sent[i]? = some a → sent[i + 1]? = some b →
    exchanges[i]? = some (.answered response) → response.status ∈ [307, 308] →
    b.method = a.method ∧ b.body = a.body
  returned : ∀ (i : ℕ) a response, sent[i]? = some a → exchanges[i]? = some (.answered response) →
    ¬IsRedirect response → result = some (.ok response)
  first : ∀ response, result = some (.ok response) → 0 < cfg.maxRedirects →
    ∃ i, sent.length = i + 1 ∧ exchanges[i]? = some (.answered response) ∧ ¬IsRedirect response ∧
      ∀ j < i, ∃ earlier, exchanges[j]? = some (.answered earlier) ∧ IsRedirect earlier

/-- Without redirects, the first answer does not name a URL that cannot be read. -/
def FirstReadable (lib : NetLib Ip Net) (cfg : HyperConfig Ip Net) (req : HyperRequest)
    (exchanges : List Exchange) : Prop :=
  cfg.maxRedirects = 0 → ∀ response, exchanges[0]? = some (.answered response) →
    ∀ route, Route.ofUrl lib cfg req.url = .ok route →
    ∃ target, redirectTarget lib response req.url = .ok target

/-- No 303 is followed, unless it is for a POST, or for a GET or HEAD without a body. -/
def SeeOtherFits (lib : NetLib Ip Net) (cfg : HyperConfig Ip Net) (req : HyperRequest)
    (exchanges : List Exchange) : Prop :=
  req.method = .post ∨ (req.method = .get ∨ req.method = .head) ∧ req.body.getD [] = [] ∨
    ∀ i response, exchanges[i]? = some (.answered response) → response.status = 303 →
      (redirectHosts lib cfg req.url 0 exchanges).length ≤ i + 1

theorem HyperRun.disabled_iff (h : HyperRun lib cfg userAgent current 0 exchanges sent result) :
    (cfg.maxRedirects = 0 → ∀ response, exchanges[0]? = some (.answered response) →
        sent ≠ [] → result = some (.ok response)) ↔
      FirstReadable lib cfg current exchanges := by
  cases h with
  | waits => exact iff_of_true nofun nofun
  | unsent hunsent =>
      refine iff_of_true (fun _ _ _ h => (h rfl).elim) fun _ response hresponse route hroute => ?_
      rcases hunsent with ⟨e, he⟩ | ⟨e, he⟩
      · cases he.symm.trans hroute
      · cases he.symm.trans (Option.some.inj hresponse)
  | failed hroute hsent hfailed =>
      refine forall_congr' fun hzero => forall_congr' fun response => forall_congr' fun hresponse =>
        iff_of_false ?_ ?_
      · exact fun h => nomatch h (List.cons_ne_nil _ _)
      · intro h
        obtain ⟨target, htarget⟩ := h _ hroute
        rcases hfailed response (Option.some.inj hresponse) with ⟨e, he⟩ | ⟨hpos, -⟩
        · cases he.symm.trans htarget
        · omega
  | returned hroute htarget =>
      refine iff_of_true (fun _ response hresponse _ => ?_) fun _ response hresponse _ _ => ?_
      · cases hresponse
        rfl
      · cases hresponse
        exact ⟨_, htarget⟩
  | follows _ _ hlimit => exact iff_of_true (fun hzero => by omega) fun hzero => by omega

theorem sendInner_follows_iff (lib : NetLib Ip Net) (cfg : HyperConfig Ip Net) (userAgent : Str)
    (req : HyperRequest) (exchanges : List Exchange) :
    FollowsRedirects lib cfg exchanges (sendInner lib cfg userAgent req 0 exchanges).1
        (sendInner lib cfg userAgent req 0 exchanges).2 ↔
      FirstReadable lib cfg req exchanges ∧ SeeOtherFits lib cfg req exchanges := by
  have hrun := sendInner_run lib cfg userAgent req 0 exchanges
  have hlength := congrArg List.length (hosts_sendInner lib cfg userAgent req 0 exchanges)
  rw [List.length_map] at hlength
  rw [SeeOtherFits, ← hlength]
  generalize (sendInner lib cfg userAgent req 0 exchanges).1 = sent at hrun ⊢
  generalize (sendInner lib cfg userAgent req 0 exchanges).2 = result at hrun ⊢
  constructor
  · intro h
    refine ⟨hrun.disabled_iff.mp h.disabled, ?_⟩
    by_cases hpost : req.method = .post
    · exact .inl hpost
    by_cases hget : (req.method = .get ∨ req.method = .head) ∧ req.body.getD [] = []
    · exact .inr (.inl hget)
    · refine .inr (.inr fun i response hresponse hstatus => ?_)
      by_contra hle
      have hb := List.getElem?_eq_getElem (l := sent) (Nat.lt_of_not_le hle)
      have ha := List.getElem?_eq_getElem (l := sent) (Nat.lt_of_succ_lt (Nat.lt_of_not_le hle))
      have hnext := h.withGet i _ _ response ha hb hresponse (.inl hstatus)
      obtain ⟨hmethod, hbody⟩ :=
        Prod.mk.inj (hrun.method_body_of_ne_post hpost _ (List.mem_of_getElem? hb))
      rw [hmethod, hbody] at hnext
      exact hget hnext
  · rintro ⟨hreadable, hfits⟩
    have hstep := fun i a b => hrun.consecutive (i := i) (a := a) (b := b)
    refine ⟨hrun.length_le (Nat.zero_le _), hrun.disabled_iff.mpr hreadable,
      fun i a response next route exchange hlimit ha hresponse htarget hroute hexchange hsent =>
        hrun.continues hlimit ha hresponse htarget hroute hexchange hsent, ?_, ?_,
      fun i a response ha hresponse hredirect => hrun.result_of_not_redirect ha hresponse hredirect,
      fun response hresult hpos => hrun.first_of_ok hresult hpos⟩
    · intro i a b response ha hb hresponse hstatus
      obtain ⟨response', hresponse', -, hrequest⟩ := hstep i a b ha hb
      cases hresponse.symm.trans hresponse'
      have hmem := List.mem_of_getElem? ha
      by_cases hpost : a.method = .post
      · have hredirected : response.status ∈ [301, 302, 303] := by
          rcases hstatus with h | ⟨h, -⟩
          · rw [h]
            decide
          · exact List.mem_append_left [303] h
        rw [if_pos ⟨hredirected, hpost⟩] at hrequest
        obtain ⟨hmethod, hbody⟩ := Prod.mk.inj hrequest
        exact ⟨.inl hmethod, hbody⟩
      · rw [if_neg fun h => hpost h.2] at hrequest
        obtain ⟨hmethod, hbody⟩ := Prod.mk.inj hrequest
        rw [hmethod, hbody]
        rcases hfits with hreq | ⟨hreq, hempty⟩ | hnone
        · obtain ⟨hget, hnobody⟩ :=
            Prod.mk.inj ((hrun.post_or_get (.inl hreq) a hmem).resolve_left hpost)
          exact ⟨.inl hget, hnobody⟩
        · have hne : req.method ≠ .post := by
            rcases hreq with h | h
            · simp [h]
            · simp [h]
          obtain ⟨hsame, hsamebody⟩ := Prod.mk.inj (hrun.method_body_of_ne_post hne a hmem)
          rw [hsame, hsamebody]
          exact ⟨hreq, hempty⟩
        · have hle := hnone i response hresponse (hstatus.resolve_right fun h => hpost h.2)
          exact absurd hb (by rw [List.getElem?_eq_none hle]; exact nofun)
    · intro i a b response ha hb hresponse hstatus
      obtain ⟨response', hresponse', -, hrequest⟩ := hstep i a b ha hb
      cases hresponse.symm.trans hresponse'
      have hother : response.status ∉ [301, 302, 303] := by
        intro h
        simp only [List.mem_cons, List.not_mem_nil, or_false] at h hstatus
        omega
      rw [if_neg fun h => hother h.1] at hrequest
      exact Prod.mk.inj hrequest

end

section Example

def seeOther : List Exchange :=
  [.answered ⟨303, [("location".toList, "http://b.example/".toList)]⟩, .answered ⟨200, []⟩]

def putRequest : HyperRequest := ⟨.put, "http://a.example/".toList, [], some [1]⟩

def malformed : List Exchange := [.answered ⟨302, [("location".toList, "http://[".toList)]⟩]

def withoutJoin : NetLib Unit Unit := { twoHosts with joinUrl := fun _ _ => none }

def withoutRedirects : HyperConfig Unit Unit := { plainConfig Unit Unit with maxRedirects := 0 }

/-- A PUT that is answered with a 303 is put again at the other URL, and an answer with a malformed
`Location` is an error although no redirects are followed. -/
theorem not_followsRedirects :
    (¬FollowsRedirects twoHosts (plainConfig Unit Unit) seeOther
        (sendInner twoHosts (plainConfig Unit Unit) [] putRequest 0 seeOther).1
        (sendInner twoHosts (plainConfig Unit Unit) [] putRequest 0 seeOther).2) ∧
      ¬FollowsRedirects withoutJoin withoutRedirects malformed
        (sendInner withoutJoin withoutRedirects [] putRequest 0 malformed).1
        (sendInner withoutJoin withoutRedirects [] putRequest 0 malformed).2 := by
  constructor
  · intro h
    obtain ⟨hmethod, -⟩ := h.withGet 0 _ _ _ rfl rfl rfl (.inl rfl)
    exact absurd hmethod (by decide)
  · intro h
    exact nomatch h.disabled rfl _ rfl (List.cons_ne_nil _ _)

end Example

end K6Rs
