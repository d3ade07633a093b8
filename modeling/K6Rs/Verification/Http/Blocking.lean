import K6Rs.Model.ReqwestClient
import K6Rs.Verification.Http.Hops
import K6Rs.Verification.Http.Redirect

/-! # What the two clients block

The hyper client checks every hop, the host as the URL spells it and the address it connects
to. The reqwest client checks the first URL only, as its parser reads it. -/

namespace K6Rs

variable {Ip Net : Type} (lib : NetLib Ip Net) (cfg : HyperConfig Ip Net)

/-- The host matches a pattern of `blockHostnames` in some letter case. -/
def NameForbidden (host : Str) : Prop :=
  ∃ pattern ∈ cfg.blockHostnames,
    hostnameMatches (Str.asciiLower host) (Str.asciiLower pattern) = true

/-- A host and an address that may not be connected to. -/
def Forbidden (visit : Str × Ip) : Prop :=
  NameForbidden cfg visit.1 ∨ cfg.blacklisted lib visit.2 = true

/-! ## The chain of hops -/

variable [DecidableEq Ip]

/-- The URLs of the hops, as the redirects lead on from those that can be connected to. -/
def urlChain (url : Str) (redirectsFollowed : ℕ) : List (Hop lib cfg) → List (Str × Hop lib cfg)
  | [] => []
  | hop :: rest =>
      (url, hop) ::
        match hop.connectsTo url, hop.answer with
        | some _, some response =>
            match redirectTarget lib response url with
            | .ok (some nextUrl) =>
                if cfg.maxRedirects ≤ redirectsFollowed then []
                else urlChain nextUrl (redirectsFollowed + 1) rest
            | _ => []
        | _, _ => []

variable {lib cfg}

omit [DecidableEq Ip] in
theorem not_blockError_redirect {response : HyperResponse} {url detail : Str}
    (h : redirectTarget lib response url = .error detail) : ¬BlockError lib cfg detail := by
  rw [redirectTarget] at h
  split at h
  · cases h
  · split at h
    · cases h
    · split at h
      · cases h
        exact not_blockError (c := 'i') rfl (by decide) (by decide)
      · cases h

/-- The loop ends at a hop that is caught. -/
theorem hyperVisits_caught {url : Str} {hop : Hop lib cfg} (h : hop.caught url = true)
    (followed : ℕ) (rest : List (Hop lib cfg)) :
    ∃ detail, hyperVisits url followed (hop :: rest) = ([], some detail) ∧
      BlockError lib cfg detail := by
  obtain ⟨detail, hdial, hblock⟩ := (hop.refuses_dial url).mpr h
  exact ⟨detail, by simp [hyperVisits, hdial], hblock⟩

/-- One round of the loop at a hop that can be connected to: the answer leads on, or it ends the
loop without a blocking error. -/
theorem hyperVisits_connected {url : Str} {hop : Hop lib cfg} {visit : Str × Ip}
    (hdial : hop.dial url = .ok visit) (hvisit : hop.connectsTo url = some visit)
    (followed : ℕ) (rest : List (Hop lib cfg)) :
    (∃ error, (∀ detail ∈ error, ¬BlockError lib cfg detail) ∧
      hyperVisits url followed (hop :: rest) = ([visit], error) ∧
      urlChain lib cfg url followed (hop :: rest) = [(url, hop)]) ∨
    ∃ nextUrl, hyperVisits url followed (hop :: rest) =
        (visit :: (hyperVisits nextUrl (followed + 1) rest).1,
          (hyperVisits nextUrl (followed + 1) rest).2) ∧
      urlChain lib cfg url followed (hop :: rest) =
        (url, hop) :: urlChain lib cfg nextUrl (followed + 1) rest := by
  cases hanswer : hop.answer with
  | none =>
      exact .inl ⟨none, by rintro _ ⟨⟩, by simp [hyperVisits, hdial, hanswer],
        by simp [urlChain, hvisit, hanswer]⟩
  | some response =>
      cases htarget : redirectTarget lib response url with
      | error detail =>
          refine .inl ⟨some detail, ?_, by simp [hyperVisits, hdial, hanswer, htarget],
            by simp [urlChain, hvisit, hanswer, htarget]⟩
          rintro _ ⟨⟩
          exact not_blockError_redirect htarget
      | ok target =>
          cases target with
          | none =>
              exact .inl ⟨none, by rintro _ ⟨⟩, by simp [hyperVisits, hdial, hanswer, htarget],
                by simp [urlChain, hvisit, hanswer, htarget]⟩
          | some nextUrl =>
              by_cases hlimit : cfg.maxRedirects ≤ followed
              · have hchain : urlChain lib cfg url followed (hop :: rest) = [(url, hop)] := by
                  simp [urlChain, hvisit, hanswer, htarget, hlimit]
                by_cases hzero : cfg.maxRedirects = 0
                · exact .inl ⟨none, by rintro _ ⟨⟩,
                    by simp [hyperVisits, hdial, hanswer, htarget, hzero], hchain⟩
                · let detail := "too many redirects: exceeded maxRedirects=".toList ++
                    Nat.toDigits 10 cfg.maxRedirects
                  refine .inl ⟨some detail, ?_,
                    by simp [hyperVisits, hdial, hanswer, htarget, hzero, hlimit, detail], hchain⟩
                  rintro _ ⟨⟩
                  exact not_blockError (c := 't') rfl (by decide) (by decide)
              · have hzero : cfg.maxRedirects ≠ 0 := by omega
                refine .inr ⟨nextUrl, ?_, ?_⟩
                · simp [hyperVisits, hdial, hanswer, htarget, hlimit, hzero]
                · simp [urlChain, hvisit, hanswer, htarget, hlimit]

/-- One round of the loop at another hop. -/
theorem hyperVisits_free {url : Str} {hop : Hop lib cfg} (hfree : hop.caught url = false)
    (followed : ℕ) (rest : List (Hop lib cfg)) :
    (∃ error, (∀ detail ∈ error, ¬BlockError lib cfg detail) ∧
      hyperVisits url followed (hop :: rest) = ((hop.connectsTo url).toList, error) ∧
      urlChain lib cfg url followed (hop :: rest) = [(url, hop)]) ∨
    ∃ visit nextUrl, hop.connectsTo url = some visit ∧
      hyperVisits url followed (hop :: rest) =
        (visit :: (hyperVisits nextUrl (followed + 1) rest).1,
          (hyperVisits nextUrl (followed + 1) rest).2) ∧
      urlChain lib cfg url followed (hop :: rest) =
        (url, hop) :: urlChain lib cfg nextUrl (followed + 1) rest := by
  cases hvisit : hop.connectsTo url with
  | none =>
      cases hdial : hop.dial url with
      | error detail =>
          refine .inl ⟨some detail, ?_, by simp [hyperVisits, hdial], by simp [urlChain, hvisit]⟩
          rintro _ ⟨⟩ hblock
          rw [(hop.refuses_dial url).mp ⟨detail, hdial, hblock⟩] at hfree
          cases hfree
      | ok visit =>
          rw [(Hop.dial_eq_ok_iff.mp hdial).2] at hvisit
          cases hvisit
  | some visit =>
      have hdial : hop.dial url = .ok visit := Hop.dial_eq_ok_iff.mpr ⟨hfree, hvisit⟩
      rcases hyperVisits_connected hdial hvisit followed rest with hends | ⟨nextUrl, hnext⟩
      · exact .inl hends
      · exact .inr ⟨visit, nextUrl, rfl, hnext⟩

/-- The hops before the first that is caught. -/
def freeChain (url : Str) (followed : ℕ) (hops : List (Hop lib cfg)) : List (Str × Hop lib cfg) :=
  (urlChain lib cfg url followed hops).takeWhile fun h => !h.2.caught h.1

/-- The client connects for the hops before the first that is caught. -/
theorem hyperVisits_eq (url : Str) (followed : ℕ) (hops : List (Hop lib cfg)) :
    (hyperVisits url followed hops).1 =
      (freeChain url followed hops).filterMap fun h => h.2.connectsTo h.1 := by
  induction hops generalizing url followed with
  | nil => rfl
  | cons hop rest ih =>
      cases hcaught : hop.caught url with
      | true =>
          obtain ⟨detail, hvisits, -⟩ := hyperVisits_caught hcaught followed rest
          simp [hvisits, freeChain, urlChain, hcaught]
      | false =>
          rcases hyperVisits_free hcaught followed rest with
            ⟨error, -, hvisits, hchain⟩ | ⟨visit, nextUrl, hvisit, hvisits, hchain⟩
          · rw [hvisits, freeChain, hchain]
            cases hvisit : hop.connectsTo url <;> simp [hcaught, hvisit]
          · rw [hvisits, freeChain, hchain]
            simp [hcaught, hvisit, ih, freeChain]

/-- The loop ends with a blocking error where a hop is caught. -/
theorem hyperVisits_blocked_iff (url : Str) (followed : ℕ) (hops : List (Hop lib cfg)) :
    (∃ detail, (hyperVisits url followed hops).2 = some detail ∧ BlockError lib cfg detail) ↔
      ∃ h ∈ urlChain lib cfg url followed hops, h.2.caught h.1 = true := by
  induction hops generalizing url followed with
  | nil => simp [hyperVisits, urlChain]
  | cons hop rest ih =>
      cases hcaught : hop.caught url with
      | true =>
          obtain ⟨detail, hvisits, hblock⟩ := hyperVisits_caught hcaught followed rest
          refine iff_of_true ⟨detail, by rw [hvisits], hblock⟩ ⟨(url, hop), ?_, hcaught⟩
          simp [urlChain]
      | false =>
          rcases hyperVisits_free hcaught followed rest with
            ⟨error, herror, hvisits, hchain⟩ | ⟨visit, nextUrl, -, hvisits, hchain⟩
          · rw [hvisits, hchain]
            refine iff_of_false ?_ (by simp [hcaught])
            rintro ⟨detail, hdetail, hblock⟩
            exact herror detail hdetail hblock
          · simp [hvisits, hchain, hcaught, ih]

/-! ## What the reqwest client refuses -/

variable (lib cfg)

/-- The host that the parser of the reqwest client gives matches a pattern, or is an address
in a blocked range. -/
def FirstRefused (reqwest : ReqwestLib Ip) (url : Str) : Prop :=
  ∃ host, reqwest.hostStr url = some host ∧
    (cfg.blockHostnames.any (hostnameMatches host) = true ∨
      ∃ ip, lib.parseIp host = some ip ∧ cfg.blacklisted lib ip = true)

variable {lib cfg}

omit [DecidableEq Ip] in
theorem refuses_checkBlocked (reqwest : ReqwestLib Ip) (url : Str) :
    Refuses lib cfg (checkBlocked lib reqwest cfg url) ↔ FirstRefused lib cfg reqwest url := by
  rw [checkBlocked, FirstRefused]
  cases hlists : cfg.blacklistIps.isEmpty && cfg.blockHostnames.isEmpty with
  | true =>
      simp only [Bool.and_eq_true, List.isEmpty_iff] at hlists
      exact iff_of_false (not_refuses_ok _) (by simp [hlists, HyperConfig.blacklisted])
  | false =>
      cases reqwest.hostStr url with
      | none => exact iff_of_false (not_refuses_ok _) (by simp)
      | some host =>
          simp only [Bool.false_eq_true, if_false, refuses_check hostname_ok_iff,
            refuses_hostname, Option.some.injEq, exists_eq_left']
          refine or_congr_right ?_
          by_cases hempty : cfg.blacklistIps = []
          · rw [if_pos (List.isEmpty_iff.mpr hempty)]
            exact iff_of_false (not_refuses_ok _) (by simp [HyperConfig.blacklisted, hempty])
          · rw [if_neg (by simpa using hempty), refuses_literal]

omit [DecidableEq Ip] in
theorem checkBlocked_ok_iff (reqwest : ReqwestLib Ip) (url : Str) :
    checkBlocked lib reqwest cfg url = .ok () ↔
      ¬Refuses lib cfg (checkBlocked lib reqwest cfg url) := by
  rw [checkBlocked]
  split
  · exact ok_iff_not_refuses
  · split
    · exact ok_iff_not_refuses
    · refine check_ok_iff hostname_ok_iff ?_
      split
      · exact ok_iff_not_refuses
      · exact literal_ok_iff

omit [DecidableEq Ip] in
theorem refuses_reqwestVisits (reqwest : ReqwestLib Ip) (url : Str) :
    Refuses lib cfg (reqwestVisits lib reqwest cfg url) ↔ FirstRefused lib cfg reqwest url := by
  rw [reqwestVisits, refuses_check (checkBlocked_ok_iff reqwest url), refuses_checkBlocked]
  exact or_iff_left (not_refuses_ok _)

omit [DecidableEq Ip] in
theorem reqwestVisits_eq_ok (reqwest : ReqwestLib Ip) (url : Str) (visits : List (Str × Ip)) :
    reqwestVisits lib reqwest cfg url = .ok visits ↔
      ¬FirstRefused lib cfg reqwest url ∧
        visits = (reqwest.requested (reqwestSettings lib cfg) url).filterMap
          (reqwest.connectsTo (reqwestSettings lib cfg)) := by
  rw [reqwestVisits, check_bind_eq_ok_iff (checkBlocked_ok_iff reqwest url), refuses_checkBlocked]
  refine and_congr_right fun _ => ?_
  exact ⟨fun h => (Except.ok.inj h).symm, fun h => h ▸ rfl⟩

/-! ## Both clients -/

/-- The clients block the same request, and neither connects to what is forbidden. -/
structure BlocksAlike (reqwest : ReqwestLib Ip) (url : Str) (hops : List (Hop lib cfg)) :
    Prop where
  same : (∃ detail, (hyperVisits url 0 hops).2 = some detail ∧ BlockError lib cfg detail) ↔
    Refuses lib cfg (reqwestVisits lib reqwest cfg url)
  hyper : ∀ visit ∈ (hyperVisits url 0 hops).1, ¬Forbidden lib cfg visit
  reqwest : ∀ visits, reqwestVisits lib reqwest cfg url = .ok visits →
    ∀ visit ∈ visits, ¬Forbidden lib cfg visit

/-- No address of the hop lies in a blocked range, and its host matches no pattern, also not in
another letter case where the hop can be connected to. -/
structure Hop.Clean (hop : Hop lib cfg) (url : Str) : Prop where
  free : hop.caught url = false
  letters : ∀ visit, hop.connectsTo url = some visit → ¬NameForbidden cfg visit.1

/-- Both clients meet what is forbidden where they look: the first URL is refused as the reqwest
client reads it, and the first hop of the hyper client that is not clean has its host spelt as
in a pattern, or an address in a blocked range. -/
structure BothCatch (reqwest : ReqwestLib Ip) (url : Str) (hops : List (Hop lib cfg)) :
    Prop where
  first : FirstRefused lib cfg reqwest url
  hop : ∃ before h after, urlChain lib cfg url 0 hops = before ++ h :: after ∧
    (∀ g ∈ before, g.2.Clean g.1) ∧ h.2.caught h.1 = true

/-- Nothing on the way of either client is forbidden. -/
structure NothingForbidden (reqwest : ReqwestLib Ip) (url : Str) (hops : List (Hop lib cfg)) :
    Prop where
  first : ¬FirstRefused lib cfg reqwest url
  hyper : ∀ h ∈ urlChain lib cfg url 0 hops, h.2.Clean h.1
  reqwest : ∀ u ∈ reqwest.requested (reqwestSettings lib cfg) url,
    ∀ visit, reqwest.connectsTo (reqwestSettings lib cfg) u = some visit → ¬Forbidden lib cfg visit

/-- The hyper client connects to what is forbidden where a pattern is met in another letter
case before a hop is caught, and nowhere else. -/
theorem hyper_allowed_iff (url : Str) (hops : List (Hop lib cfg)) :
    (∀ visit ∈ (hyperVisits url 0 hops).1, ¬Forbidden lib cfg visit) ↔
      ∀ h ∈ freeChain url 0 hops, h.2.Clean h.1 := by
  have hfree : ∀ h ∈ freeChain url 0 hops, h.2.caught h.1 = false := by
    intro h hmem
    simpa using List.mem_takeWhile_imp hmem
  simp only [hyperVisits_eq, List.mem_filterMap]
  constructor
  · intro hallowed h hmem
    refine ⟨hfree h hmem, fun visit hvisit hname => ?_⟩
    exact hallowed visit ⟨h, hmem, hvisit⟩ (.inl hname)
  · rintro hclean visit ⟨h, hmem, hvisit⟩ (hname | hblack)
    · exact (hclean h hmem).letters visit hvisit hname
    · rw [Hop.blacklisted_of_connectsTo hvisit (hfree h hmem)] at hblack
      cases hblack

theorem freeChain_eq {url : Str} {hops : List (Hop lib cfg)}
    {before after : List (Str × Hop lib cfg)} {h : Str × Hop lib cfg}
    (hchain : urlChain lib cfg url 0 hops = before ++ h :: after)
    (hbefore : ∀ g ∈ before, g.2.caught g.1 = false) (hcaught : h.2.caught h.1 = true) :
    freeChain url 0 hops = before := by
  rw [freeChain, hchain, List.takeWhile_append_of_pos fun g hg => by simp [hbefore g hg]]
  simp [hcaught]

/-- The first hop that is caught. -/
theorem exists_first_caught {url : Str} {hops : List (Hop lib cfg)}
    (h : ∃ h ∈ urlChain lib cfg url 0 hops, h.2.caught h.1 = true) :
    ∃ g after, urlChain lib cfg url 0 hops = freeChain url 0 hops ++ g :: after ∧
      g.2.caught g.1 = true := by
  obtain ⟨g, hg⟩ := Option.isSome_iff_exists.mp (List.find?_isSome.mpr h)
  obtain ⟨hcaught, before, after, hchain, hbefore⟩ := List.find?_eq_some_iff_append.mp hg
  have heq := freeChain_eq hchain (fun g hg => by simpa using hbefore g hg) hcaught
  exact ⟨g, after, heq ▸ hchain, hcaught⟩

theorem blocksAlike_iff (lib : NetLib Ip Net) (cfg : HyperConfig Ip Net)
    (reqwest : ReqwestLib Ip) (url : Str) (hops : List (Hop lib cfg)) :
    BlocksAlike reqwest url hops ↔
      BothCatch reqwest url hops ∨ NothingForbidden reqwest url hops := by
  constructor
  · intro h
    have hclean := (hyper_allowed_iff url hops).mp h.hyper
    have hsame := h.same
    rw [hyperVisits_blocked_iff, refuses_reqwestVisits] at hsame
    by_cases hfirst : FirstRefused lib cfg reqwest url
    · obtain ⟨g, after, hchain, hcaught⟩ := exists_first_caught (hsame.mpr hfirst)
      exact .inl ⟨hfirst, _, g, after, hchain, hclean, hcaught⟩
    · have hall : freeChain url 0 hops = urlChain lib cfg url 0 hops := by
        rw [freeChain, List.takeWhile_eq_self_iff]
        intro g hg
        cases hcaught : g.2.caught g.1 with
        | true => exact absurd (hsame.mp ⟨g, hg, hcaught⟩) hfirst
        | false => rfl
      refine .inr ⟨hfirst, fun g hg => hclean g (hall ▸ hg), fun u hu visit hvisit => ?_⟩
      exact h.reqwest _ ((reqwestVisits_eq_ok reqwest url _).mpr ⟨hfirst, rfl⟩) visit
        (List.mem_filterMap.mpr ⟨u, hu, hvisit⟩)
  · rintro (⟨hfirst, before, g, after, hchain, hbefore, hcaught⟩ | ⟨hfirst, hhyper, hreqwest⟩)
    · refine ⟨?_, (hyper_allowed_iff url hops).mpr ?_, fun visits hvisits => ?_⟩
      · rw [hyperVisits_blocked_iff, refuses_reqwestVisits]
        exact iff_of_true ⟨g, by simp [hchain], hcaught⟩ hfirst
      · rw [freeChain_eq hchain (fun g hg => (hbefore g hg).free) hcaught]
        exact hbefore
      · exact absurd hfirst ((reqwestVisits_eq_ok reqwest url visits).mp hvisits).1
    · refine ⟨?_, (hyper_allowed_iff url hops).mpr ?_, fun visits hvisits => ?_⟩
      · rw [hyperVisits_blocked_iff, refuses_reqwestVisits]
        refine iff_of_false ?_ hfirst
        rintro ⟨g, hg, hcaught⟩
        rw [(hhyper g hg).free] at hcaught
        cases hcaught
      · exact fun g hg => hhyper g ((List.takeWhile_subset _) hg)
      · obtain ⟨-, rfl⟩ := (reqwestVisits_eq_ok reqwest url visits).mp hvisits
        intro visit hmem
        obtain ⟨u, hu, hvisit⟩ := List.mem_filterMap.mp hmem
        exact hreqwest u hu visit hvisit

/-! ## A name with a blocked address -/

/-- One URL. -/
def intranetLib : NetLib ℕ (ℕ × ℕ) where
  parseIp := fun _ => none
  showIp := Nat.toDigits 10
  contains := fun range ip => range.1 ≤ ip && ip ≤ range.2
  parseUri url :=
    if url = "http://intranet/".toList then some ⟨some "http".toList, some "intranet".toList, none⟩
    else none
  joinUrl _ location := some location

/-- The addresses from 10.0.0.0 to 10.255.255.255 are blocked. -/
def privateBlocked : HyperConfig ℕ (ℕ × ℕ) :=
  { plainConfig ℕ (ℕ × ℕ) with blacklistIps := [(0x0a000000, 0x0affffff)] }

/-- The resolver answers with 10.0.0.1. -/
def intranetHop : Hop intranetLib privateBlocked where
  pool := .new
  reached := ⟨[], .start rfl⟩
  lookup := fun _ => some 0x0a000001
  answer := none

def intranetReqwest : ReqwestLib ℕ where
  hostStr := fun _ => some "intranet".toList
  requested := fun _ url => [url]
  address := fun _ _ => some 0x0a000001

theorem not_blocksAlike_of_resolved :
    ¬∀ (lib : NetLib ℕ (ℕ × ℕ)) (cfg : HyperConfig ℕ (ℕ × ℕ)) (reqwest : ReqwestLib ℕ) (url : Str)
      (hops : List (Hop lib cfg)), BlocksAlike reqwest url hops := by
  intro h
  have halike :=
    h intranetLib privateBlocked intranetReqwest "http://intranet/".toList [intranetHop]
  exact halike.reqwest [("intranet".toList, 0x0a000001)] rfl _ List.mem_cons_self
    (.inr (by decide))

end K6Rs
