import K6Rs.Model.HyperHops
import K6Rs.Verification.Http.Provenance
import K6Rs.Verification.Http.Redirect
import K6Rs.Verification.Http.Refusal

/-! # One hop

A hop connects to no blocked address: the idle connections of the pool were checked when
they were opened. -/

namespace K6Rs

variable {Ip Net : Type} {lib : NetLib Ip Net} {cfg : HyperConfig Ip Net}

/-- The address of a connection to a checked target is in no blocked range. -/
theorem connectAddress_clear {url : Str} {route : Route Ip} (h : Route.Checked lib cfg url route)
    {lookup : Str → Option Ip} {addr : Ip}
    (haddr : connectAddress lib cfg lookup route.target = .ok addr) :
    cfg.blacklisted lib addr = false := by
  cases htarget : route.target with
  | ip mapped port =>
      rw [htarget] at haddr
      cases haddr
      rcases h.target with ⟨proxy, -, -, hproxy⟩ | ⟨-, hresolve⟩
      · rw [htarget] at hproxy
        cases hproxy
      · rw [HyperConfig.resolveConnectTarget] at hresolve
        split at hresolve
        · obtain ⟨⟨⟩, hclear, heq⟩ := Except.bind_eq_ok_iff.mp hresolve
          have hsame := (Prod.mk.inj (Except.ok.inj heq)).2
          rw [htarget] at hsame
          cases hsame
          simpa [refuses_ip] using ip_ok_iff.mp hclear
        · have hsame := (Prod.mk.inj (Except.ok.inj hresolve)).2
          rw [htarget] at hsame
          cases hsame
  | host authority =>
      rw [htarget, connectAddress] at haddr
      split at haddr
      · cases haddr
      · obtain ⟨⟨⟩, hclear, heq⟩ := Except.bind_eq_ok_iff.mp haddr
        cases heq
        simpa [refuses_ip] using ip_ok_iff.mp hclear

variable [DecidableEq Ip]

/-- No connection of the pool goes to a blocked range. -/
theorem HyperPool.clear_of_run {es : List (HyperPool.Event Ip)} {s : HyperPool Ip}
    (h : (hyperSystem lib cfg).AnyRun es s) {conn : Conn Ip} {key : RouteKey Ip}
    (hmem : conn ∈ s.pool key) : cfg.blacklisted lib conn.addr = false := by
  have hstarts : (hyperSystem lib cfg).Runs (fun _ e => e.StartsIn Set.univ) es s :=
    h.mono fun _ e _ => by cases e <;> trivial
  obtain ⟨route, answer, ⟨url, -, src, hroute, -⟩, -, haddr⟩ :=
    (provenance_of_run hstarts).conn conn (.idle key) hmem
  exact connectAddress_clear (Route.checked hroute) haddr

namespace Hop

theorem mem_pool_of_pooled {hop : Hop lib cfg} {route : Route Ip} {conn : Conn Ip}
    (h : hop.pooled route = some conn) : ∃ key, conn ∈ hop.pool.pool key := by
  rw [pooled] at h
  split at h
  · cases h
  · obtain ⟨⟨found, rest⟩, hacquire, rfl⟩ := Option.map_eq_some_iff.mp h
    rw [HyperPool.tryAcquire] at hacquire
    split at hacquire
    · cases hacquire
    · rename_i hpool
      cases hacquire
      exact ⟨_, hpool ▸ List.mem_cons_self⟩

theorem route_of_dial {hop : Hop lib cfg} {url : Str} {visit : Str × Ip}
    (h : hop.dial url = .ok visit) :
    ∃ route, Route.ofUrl lib cfg url = .ok route ∧ route.host = visit.1 := by
  obtain ⟨route, hroute, h⟩ := Except.bind_eq_ok_iff.mp h
  refine ⟨route, hroute, ?_⟩
  split at h
  · cases h
    rfl
  · obtain ⟨addr, -, heq⟩ := Except.bind_eq_ok_iff.mp h
    cases heq
    rfl

theorem clear_of_pooled {hop : Hop lib cfg} {route : Route Ip} {conn : Conn Ip}
    (h : hop.pooled route = some conn) : cfg.blacklisted lib conn.addr = false := by
  obtain ⟨es, hrun⟩ := hop.reached
  obtain ⟨key, hmem⟩ := mem_pool_of_pooled h
  exact HyperPool.clear_of_run hrun hmem

/-- The address of an idle connection of the route, its mapped address, or the answer of the
resolver. -/
def address (hop : Hop lib cfg) (route : Route Ip) : Option Ip :=
  match hop.pooled route with
  | some conn => some conn.addr
  | none =>
      match route.target with
      | .ip addr _ => some addr
      | .host authority => hop.lookup authority

/-- The host of the URL matches a pattern as it is spelt, or an address of the hop lies in a
blocked range. -/
def caught (hop : Hop lib cfg) (url : Str) : Bool :=
  (Route.unchecked lib cfg url).any fun route =>
    route.caught lib cfg || (hop.address route).any (cfg.blacklisted lib)

/-- The host and the address of the hop, where the URL has a host and the host an address. -/
def connectsTo (hop : Hop lib cfg) (url : Str) : Option (Str × Ip) :=
  (Route.unchecked lib cfg url).bind fun route =>
    (hop.address route).map fun addr => (route.host, addr)

theorem blacklisted_of_connectsTo {hop : Hop lib cfg} {url : Str} {visit : Str × Ip}
    (h : hop.connectsTo url = some visit) (hfree : hop.caught url = false) :
    cfg.blacklisted lib visit.2 = false := by
  obtain ⟨route, hroute, h⟩ := Option.bind_eq_some_iff.mp h
  obtain ⟨addr, haddr, rfl⟩ := Option.map_eq_some_iff.mp h
  rw [caught, hroute, Option.any_some, Bool.or_eq_false_iff, haddr] at hfree
  exact hfree.2

/-- How a hop goes on whose route passes the checks. -/
theorem dial_cases (hop : Hop lib cfg) {url : Str} {route : Route Ip}
    (hroute : Route.ofUrl lib cfg url = .ok route) :
    (∃ addr, hop.address route = some addr ∧ cfg.blacklisted lib addr = false ∧
      hop.dial url = .ok (route.host, addr)) ∨
    (∃ addr, hop.address route = some addr ∧ cfg.blacklisted lib addr = true ∧
      Refuses lib cfg (hop.dial url)) ∨
    (hop.address route = none ∧ ∃ detail, hop.dial url = .error detail ∧
      ¬BlockError lib cfg detail) := by
  rw [dial, hroute, Except.ok_bind, address]
  cases hpooled : hop.pooled route with
  | some conn => exact .inl ⟨conn.addr, rfl, clear_of_pooled hpooled, rfl⟩
  | none =>
      cases htarget : route.target with
      | ip addr port =>
          have hmem : addr ∈ route.knownAddresses lib := by
            simp [Route.knownAddresses, htarget]
          have hfree := (Route.ofUrl_eq_ok_iff.mp hroute).2
          rw [Route.caught, Bool.or_eq_false_iff] at hfree
          exact .inl ⟨addr, rfl, by simpa using List.any_eq_false.mp hfree.2 addr hmem, rfl⟩
      | host authority =>
          cases hlookup : hop.lookup authority with
          | none =>
              simp only [connectAddress, hlookup]
              refine .inr (.inr ⟨trivial, _, rfl, ?_⟩)
              exact not_blockError (c := 'D') rfl (by decide) (by decide)
          | some addr =>
              simp only [connectAddress, hlookup]
              cases hblack : cfg.blacklisted lib addr with
              | false =>
                  have hclear : cfg.checkIpBlacklist lib addr = .ok () :=
                    ip_ok_iff.mpr (by simp [refuses_ip, hblack])
                  rw [hclear]
                  exact .inl ⟨addr, rfl, hblack, rfl⟩
              | true =>
                  refine .inr (.inl ⟨addr, rfl, hblack, ?_⟩)
                  rw [refuses_bind, refuses_check ip_ok_iff]
                  exact .inl (.inl (refuses_ip.mpr hblack))

theorem refuses_dial (hop : Hop lib cfg) (url : Str) :
    Refuses lib cfg (hop.dial url) ↔ hop.caught url = true := by
  cases hroute : Route.unchecked lib cfg url with
  | none =>
      rw [dial, refuses_bind, Route.refuses_ofUrl]
      simp [caught, hroute, Route.ofUrl_eq_ok_iff]
  | some route =>
      cases hcaught : route.caught lib cfg with
      | true =>
          rw [dial, refuses_bind, Route.refuses_ofUrl]
          simp [caught, hroute, hcaught]
      | false =>
          rcases hop.dial_cases (Route.ofUrl_eq_ok_iff.mpr ⟨hroute, hcaught⟩) with
            ⟨addr, haddr, hclear, hdial⟩ | ⟨addr, haddr, hblack, hrefuses⟩ |
              ⟨hnone, detail, hdial, hother⟩
          · simp [caught, hroute, hcaught, haddr, hclear, hdial, not_refuses_ok]
          · simp [caught, hroute, haddr, hblack, hrefuses]
          · simp [caught, hroute, hcaught, hnone, hdial, Refuses, hother]

/-- A hop connects where its URL and the resolver's answer send it, unless it is caught. -/
theorem dial_eq_ok_iff {hop : Hop lib cfg} {url : Str} {visit : Str × Ip} :
    hop.dial url = .ok visit ↔ hop.caught url = false ∧ hop.connectsTo url = some visit := by
  constructor
  · intro h
    have hfree : ¬Refuses lib cfg (hop.dial url) := h ▸ not_refuses_ok visit
    obtain ⟨route, hroute, -⟩ := route_of_dial h
    refine ⟨by simpa [refuses_dial] using hfree, ?_⟩
    rcases hop.dial_cases hroute with
      ⟨addr, haddr, -, hdial⟩ | ⟨addr, -, -, hrefuses⟩ | ⟨-, detail, hdial, -⟩
    · rw [hdial] at h
      cases h
      simp [connectsTo, (Route.ofUrl_eq_ok_iff.mp hroute).1, haddr]
    · exact absurd hrefuses hfree
    · rw [hdial] at h
      cases h
  · rintro ⟨hfree, h⟩
    obtain ⟨route, hroute, h⟩ := Option.bind_eq_some_iff.mp h
    obtain ⟨addr, haddr, rfl⟩ := Option.map_eq_some_iff.mp h
    have hfree' := hfree
    rw [caught, hroute, Option.any_some, Bool.or_eq_false_iff] at hfree'
    rcases hop.dial_cases (Route.ofUrl_eq_ok_iff.mpr ⟨hroute, hfree'.1⟩) with
      ⟨found, hfound, -, hdial⟩ | ⟨found, hfound, hblack, -⟩ | ⟨hnone, -⟩
    · rw [haddr] at hfound
      cases hfound
      exact hdial
    · simp [hfound, hblack] at hfree'
    · simp [hnone] at haddr

end Hop

/-! ## The hops among the requests of the client -/

namespace Hop

theorem acquire_of_pooled {hop : Hop lib cfg} {route : Route Ip} {conn : Conn Ip}
    (h : hop.pooled route = some conn) {s : HyperPool Ip} {r : ℕ} (hpool : s.pool = hop.pool.pool)
    {key : RouteKey Ip}
    (hkey : key = route.key (HyperPool.nextSourceIp cfg hop.pool.localIpIndex).1)
    (hpc : s.requests r = .routed route key) :
    ∃ t, (hyperSystem lib cfg).step s (.acquire r) = some t ∧
      t.requests r = .sending route key conn := by
  subst hkey
  rw [pooled] at h
  split at h
  · cases h
  · rename_i hreuse
    obtain ⟨⟨_, u⟩, hacquire, rfl⟩ := Option.map_eq_some_iff.mp h
    rw [HyperPool.tryAcquire] at hacquire
    split at hacquire
    · cases hacquire
    · rename_i hidle
      simp only [hyperSystem, HyperPool.step, hpc]
      rw [if_neg hreuse, HyperPool.tryAcquire, hpool, hidle]
      cases hacquire
      exact ⟨_, rfl, by simp [HyperPool.setRequest]⟩

theorem acquire_of_not_pooled {hop : Hop lib cfg} {route : Route Ip}
    (h : hop.pooled route = none) {s : HyperPool Ip} {r : ℕ} (hpool : s.pool = hop.pool.pool)
    {key : RouteKey Ip} (hkey : key =
      route.key (HyperPool.nextSourceIp cfg hop.pool.localIpIndex).1)
    (hpc : s.requests r = .routed route key) :
    (hyperSystem lib cfg).step s (.acquire r) = some (s.setRequest r (.opening route key)) := by
  subst hkey
  simp only [hyperSystem, HyperPool.step, hpc]
  rw [pooled] at h
  split at h
  · rename_i hreuse
    rw [if_pos hreuse]
  · rename_i hreuse
    rw [if_neg hreuse, HyperPool.tryAcquire, hpool]
    rw [Option.map_eq_none_iff, HyperPool.tryAcquire] at h
    split at h
    · rfl
    · cases h

/-- A request of the pool connects where the hop does. -/
theorem exec_of_dial {hop : Hop lib cfg} {url : Str} {visit : Str × Ip}
    (h : hop.dial url = .ok visit) {r : ℕ} (hidle : hop.pool.requests r = .idle) :
    ∃ es s route conn, (hyperSystem lib cfg).execWhen (fun _ _ => true) hop.pool es = some s ∧
      (s.requests r).inUse = some (route, conn) ∧ visit = (route.host, conn.addr) := by
  obtain ⟨route, hroute, h⟩ := Except.bind_eq_ok_iff.mp h
  let key := route.key (HyperPool.nextSourceIp cfg hop.pool.localIpIndex).1
  let started : HyperPool Ip :=
    { hop.pool.setRequest r (.routed route key) with
      localIpIndex := (HyperPool.nextSourceIp cfg hop.pool.localIpIndex).2 }
  have hstart : (hyperSystem lib cfg).step hop.pool (.start r url) = some started := by
    simp only [hyperSystem, HyperPool.step, hidle, hroute]
    rfl
  have hpc : started.requests r = .routed route key := by
    simp [started, HyperPool.setRequest]
  cases hpooled : hop.pooled route with
  | some conn =>
      rw [hpooled] at h
      cases h
      obtain ⟨t, hacquire, huse⟩ := acquire_of_pooled (s := started) hpooled rfl rfl hpc
      refine ⟨[.start r url, .acquire r], t, route, conn, ?_, by rw [huse]; rfl, rfl⟩
      exact StepSystem.execWhen_cons rfl hstart (StepSystem.execWhen_cons rfl hacquire rfl)
  | none =>
      rw [hpooled] at h
      obtain ⟨addr, haddr, heq⟩ := Except.bind_eq_ok_iff.mp h
      cases heq
      have hacquire := acquire_of_not_pooled (s := started) hpooled rfl rfl hpc
      -- the only name that is looked up is that of the target
      have hlookup : ∃ answer, connectAddress lib cfg (fun _ => answer) route.target =
          .ok addr := by
        cases htarget : route.target with
        | ip mapped port => exact ⟨none, by rwa [htarget] at haddr⟩
        | host authority => exact ⟨hop.lookup authority, by rwa [htarget] at haddr⟩
      obtain ⟨answer, hanswer⟩ := hlookup
      let conn : Conn Ip := ⟨started.opened, key, addr, HyperPool.serverName route⟩
      let sent : HyperPool Ip :=
        { (started.setRequest r (.opening route key)).setRequest r (.sending route key conn) with
          opened := started.opened + 1 }
      have hopened : (hyperSystem lib cfg).step (started.setRequest r (.opening route key))
          (.opened r answer) = some sent := by
        have hopening : (started.setRequest r (.opening route key)).requests r =
            .opening route key := by simp [HyperPool.setRequest]
        simp only [hyperSystem, HyperPool.step, hopening, hanswer]
        rfl
      refine ⟨[.start r url, .acquire r, .opened r answer], sent, route, conn, ?_, ?_, rfl⟩
      · exact StepSystem.execWhen_cons rfl hstart (StepSystem.execWhen_cons rfl hacquire
          (StepSystem.execWhen_cons rfl hopened rfl))
      · simp [sent, HyperPool.setRequest, RequestPc.inUse]

end Hop

/-- The hosts of the hops are those that the redirect loop sends requests to. -/
theorem hosts_hyperVisits (userAgent : Str) (req : HyperRequest) (followed : ℕ)
    (hops : List (Hop lib cfg)) :
    ∃ exchanges, (sendInner lib cfg userAgent req followed exchanges).1.map SentRequest.host =
      (hyperVisits req.url followed hops).1.map Prod.fst := by
  induction hops generalizing req followed with
  | nil => exact ⟨[], rfl⟩
  | cons hop rest ih =>
      cases hdial : hop.dial req.url with
      | error detail =>
          refine ⟨[.unsent detail], ?_⟩
          simp only [sendInner, hyperVisits, hdial]
          split <;> rfl
      | ok visit =>
          obtain ⟨route, hroute, hhost⟩ := Hop.route_of_dial hdial
          cases hanswer : hop.answer with
          | none =>
              exact ⟨[.broken []], by simp [sendInner, hyperVisits, hdial, hanswer, hroute, hhost]⟩
          | some response =>
              cases htarget : redirectTarget lib response req.url with
              | error detail =>
                  exact ⟨[.answered response],
                    by simp [sendInner, hyperVisits, hdial, hanswer, hroute, hhost, htarget]⟩
              | ok target =>
                  cases target with
                  | none =>
                      exact ⟨[.answered response],
                        by simp [sendInner, hyperVisits, hdial, hanswer, hroute, hhost, htarget]⟩
                  | some nextUrl =>
                      let next := redirectedRequest req nextUrl response.status
                      obtain ⟨exchanges, hsame⟩ := ih next (followed + 1)
                      refine ⟨.answered response :: exchanges, ?_⟩
                      rw [url_redirectedRequest] at hsame
                      by_cases hzero : cfg.maxRedirects = 0
                      · simp [sendInner, hyperVisits, hdial, hanswer, hroute, hhost, htarget, hzero]
                      · by_cases hlimit : cfg.maxRedirects ≤ followed
                        · simp [sendInner, hyperVisits, hdial, hanswer, hroute, hhost, htarget,
                            hzero, hlimit]
                        · simp [sendInner, hyperVisits, hdial, hanswer, hroute, hhost, htarget,
                            hzero, hlimit, hsame, next]

end K6Rs
