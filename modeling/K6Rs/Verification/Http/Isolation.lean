import K6Rs.Verification.Http.Provenance
import K6Rs.Verification.Http.Redirect

/-! # Server names

A slot of the pool is named by the target host, which the `hosts` option may have replaced,
and a TLS connection by the host of the URL. A slot holds connections of one server name
exactly when no two URLs have one slot and two hosts. -/

namespace K6Rs

namespace HyperPool

variable {Ip Net : Type}

/-- A request is only written to a connection whose handshake named its host. -/
def Isolated (s : HyperPool Ip) : Prop :=
  ∀ r route conn, (s.requests r).inUse = some (route, conn) → route.transport = .https →
    conn.serverName = some route.host

/-- Two HTTPS URLs with different hosts have one slot. -/
def Ambiguous (lib : NetLib Ip Net) (cfg : HyperConfig Ip Net) (urls : Set Str) : Prop :=
  ∃ url ∈ urls, ∃ url' ∈ urls, ∃ route route' : Route Ip,
    Route.ofUrl lib cfg url = .ok route ∧ Route.ofUrl lib cfg url' = .ok route' ∧
      route.transport = .https ∧ route.key none = route'.key none ∧ route.host ≠ route'.host

variable {lib : NetLib Ip Net} {cfg : HyperConfig Ip Net} {urls : Set Str}

/-! ## One server name for each slot -/

/-- Routes of one slot have one server name. -/
theorem serverName_unique (hurls : ¬Ambiguous lib cfg urls) {route route' : Route Ip}
    {key : RouteKey Ip} (h : FromUrl lib cfg urls route key)
    (h' : FromUrl lib cfg urls route' key) : serverName route = serverName route' := by
  obtain ⟨url, hurl, src, hroute, rfl⟩ := h
  obtain ⟨url', hurl', src', hroute', hkey⟩ := h'
  simp only [Route.key, RouteKey.mk.injEq] at hkey
  obtain ⟨htransport, hhost, hport, -, hproxy⟩ := hkey
  rw [serverName, serverName, ← htransport]
  cases hscheme : route.transport with
  | http => rfl
  | https =>
      by_contra hne
      refine hurls ⟨url, hurl, url', hurl', route, route', hroute, hroute', hscheme, ?_, ?_⟩
      · simp only [Route.key, htransport, hhost, hport, hproxy]
      · exact fun heq => hne (congrArg some heq)

/-- A request in progress has a connection with its server name. -/
def Named (pc : RequestPc Ip) : Prop :=
  ∀ route conn, pc.inUse = some (route, conn) → conn.serverName = serverName route

theorem named_of_inUse {pc pc' : RequestPc Ip} (h : Named pc) (huse : pc'.inUse = pc.inUse) :
    Named pc' := fun route conn hpc => h route conn (huse ▸ hpc)

theorem named_of_none {pc : RequestPc Ip} (h : pc.inUse = none) : Named pc := by
  intro route conn huse
  rw [h] at huse
  cases huse

structure Sourced (lib : NetLib Ip Net) (cfg : HyperConfig Ip Net) (urls : Set Str)
    (s : HyperPool Ip) : Prop where
  provenance : s.Provenance lib cfg urls
  named : ∀ r, Named (s.requests r)

theorem Sourced.isolated {s : HyperPool Ip} (h : s.Sourced lib cfg urls) : s.Isolated := by
  intro r route conn huse hhttps
  rw [h.named r route conn huse, serverName, hhttps]

/-- An idle connection has the server name of a request for its slot. -/
theorem Provenance.serverName_idle {s : HyperPool Ip} (h : s.Provenance lib cfg urls)
    (hurls : ¬Ambiguous lib cfg urls) {route : Route Ip} {key : RouteKey Ip} {conn : Conn Ip}
    (hroute : FromUrl lib cfg urls route key) (hidle : s.At conn (.idle key)) :
    conn.serverName = serverName route := by
  obtain ⟨route', -, hroute', hname, -⟩ := h.conn conn _ hidle
  rw [h.placed.slot conn key hidle] at hroute'
  exact hname.trans (serverName_unique hurls hroute' hroute)

variable [DecidableEq Ip]

theorem named_of_steps {s s' : HyperPool Ip} {e : Event Ip} (h : s.Sourced lib cfg urls)
    (hurls : cfg.noConnectionReuse = true ∨ ¬Ambiguous lib cfg urls)
    (hs : Steps lib cfg s e s') (q : ℕ) : Named (s'.requests q) := by
  cases hs with
  | start r => exact forall_setRequest h.named (by exact named_of_none rfl) r q
  | hit r route key conn rest hreuse hpc hpool =>
      have hroute := h.provenance.routed r
      rw [hpc] at hroute
      have hidle : s.At conn (.idle key) := by simp [At, hpool]
      have hname :=
        h.provenance.serverName_idle (hurls.resolve_left (by simp [hreuse])) hroute hidle
      have hnamed : Named (.sending route key conn) := by
        rintro _ _ ⟨⟩
        exact hname
      exact forall_setRequest (s := { s with pool := Function.update s.pool key rest }) h.named
        hnamed r q
  | miss r => exact forall_setRequest h.named (by exact named_of_none rfl) r q
  | opened r answer route key addr hpc haddr =>
      refine forall_setRequest h.named ?_ r q
      rintro _ _ ⟨⟩
      rfl
  | unopened _ r => exact forall_setRequest h.named (by exact named_of_none rfl) r q
  | failed _ r => exact forall_setRequest h.named (by exact named_of_none rfl) r q
  | respond r route key conn headers hpc =>
      have hnamed := h.named r
      rw [hpc] at hnamed
      exact forall_setRequest h.named (by exact named_of_inUse hnamed rfl) r q
  | drained r route key conn headers hpc =>
      rw [requests_finish]
      exact forall_setRequest h.named (by exact named_of_none rfl) r q

theorem sourced_of_run {es : List (Event Ip)} {s : HyperPool Ip}
    (hurls : cfg.noConnectionReuse = true ∨ ¬Ambiguous lib cfg urls)
    (h : (hyperSystem lib cfg).Runs (fun _ e => e.StartsIn urls) es s) :
    s.Sourced lib cfg urls := by
  refine h.invariant (I := Sourced lib cfg urls) (fun s hs => ?_) fun _ _ _ hI he hs => ?_
  · subst hs
    exact ⟨provenance_new, fun _ => named_of_none rfl⟩
  · have hsteps := steps_of_step hs
    exact ⟨hI.provenance.step he hsteps, named_of_steps hI hurls hsteps⟩

/-! ## A run that shares a connection -/

omit [DecidableEq Ip] in
/-- Of two URLs that share a slot, one has an address of the `hosts` option. -/
theorem Ambiguous.mapped (h : Ambiguous lib cfg urls) :
    ∃ url ∈ urls, ∃ url' ∈ urls, ∃ route route' : Route Ip,
      Route.ofUrl lib cfg url = .ok route ∧ Route.ofUrl lib cfg url' = .ok route' ∧
        route.transport = .https ∧ route'.transport = .https ∧
        (∀ src, route.key src = route'.key src) ∧ route.host ≠ route'.host ∧
        ∃ addr, route.target = .ip addr route.port := by
  obtain ⟨url, hurl, url', hurl', route, route', hroute, hroute', hhttps, hkey, hne⟩ := h
  simp only [Route.key, RouteKey.mk.injEq] at hkey
  obtain ⟨htransport, hhost, hport, -, hproxy⟩ := hkey
  have hsame (src : Option Ip) : route.key src = route'.key src := by
    simp only [Route.key, htransport, hhost, hport, hproxy]
  by_cases hmapped : route.targetHost = route.host
  · have hother : route'.targetHost ≠ route'.host := fun heq =>
      hne (hmapped.symm.trans (hhost.trans heq))
    exact ⟨url', hurl', url, hurl, route', route, hroute', hroute, htransport ▸ hhttps, hhttps,
      fun src => (hsame src).symm, hne.symm, (Route.checked hroute').mapped hother⟩
  · exact ⟨url, hurl, url', hurl', route, route', hroute, hroute', hhttps, htransport ▸ hhttps,
      hsame, hne, (Route.checked hroute).mapped hmapped⟩

/-- A request that finds no address to connect to uses up one source address. -/
theorem run_skip {es : List (Event Ip)} {s : HyperPool Ip} {url : Str} {route : Route Ip}
    (hurl : url ∈ urls) (hroute : Route.ofUrl lib cfg url = .ok route)
    (h : (hyperSystem lib cfg).Runs (fun _ e => e.StartsIn urls) es s)
    (hpool : ∀ key, s.pool key = []) (hidle : s.requests 1 = .idle) :
    ∃ fs, (hyperSystem lib cfg).Runs (fun _ e => e.StartsIn urls) fs
      { s with localIpIndex := (nextSourceIp cfg s.localIpIndex).2 } := by
  let key := route.key (nextSourceIp cfg s.localIpIndex).1
  let started : HyperPool Ip :=
    { s.setRequest 1 (.routed route key) with
      localIpIndex := (nextSourceIp cfg s.localIpIndex).2 }
  have hstart : (hyperSystem lib cfg).step s (.start 1 url) = some started := by
    simp only [hyperSystem, step, hidle, hroute]
    rfl
  have hacquire : (hyperSystem lib cfg).step started (.acquire 1) =
      some (started.setRequest 1 (.opening route key)) := by
    simp [hyperSystem, step, tryAcquire, started, setRequest, hpool]
  have hfail : (hyperSystem lib cfg).step (started.setRequest 1 (.opening route key))
      (.openFailed 1) = some { s with localIpIndex := (nextSourceIp cfg s.localIpIndex).2 } := by
    have hsame : Function.update s.requests 1 .idle = s.requests := by
      rw [← hidle, Function.update_eq_self]
    simp [hyperSystem, step, started, setRequest, hsame]
  have hrun := h.next (by exact hurl) hstart
  exact ⟨_, (hrun.next (by trivial) hacquire).next (by trivial) hfail⟩

theorem run_skips {url : Str} {route : Route Ip} (hurl : url ∈ urls)
    (hroute : Route.ofUrl lib cfg url = .ok route) (hips : cfg.localIps ≠ []) (k : ℕ)
    {es : List (Event Ip)} {s : HyperPool Ip}
    (h : (hyperSystem lib cfg).Runs (fun _ e => e.StartsIn urls) es s)
    (hpool : ∀ key, s.pool key = []) (hidle : s.requests 1 = .idle) :
    ∃ fs, (hyperSystem lib cfg).Runs (fun _ e => e.StartsIn urls) fs
      { s with localIpIndex := s.localIpIndex + k } := by
  induction k with
  | zero => exact ⟨es, h⟩
  | succ k ih =>
      obtain ⟨fs, hrun⟩ := ih
      have hskip := run_skip hurl hroute hrun hpool hidle
      simpa [nextSourceIp, hips, Nat.add_assoc] using hskip

/-- The next request can get any source address again. -/
theorem run_sameSource {url : Str} {route : Route Ip} (hurl : url ∈ urls)
    (hroute : Route.ofUrl lib cfg url = .ok route) {es : List (Event Ip)} {s : HyperPool Ip}
    (h : (hyperSystem lib cfg).Runs (fun _ e => e.StartsIn urls) es s)
    (hpool : ∀ key, s.pool key = []) (hidle : s.requests 1 = .idle)
    (hindex : s.localIpIndex = (nextSourceIp cfg 0).2) :
    ∃ fs i, (nextSourceIp cfg i).1 = (nextSourceIp cfg 0).1 ∧
      (hyperSystem lib cfg).Runs (fun _ e => e.StartsIn urls) fs { s with localIpIndex := i } := by
  by_cases hips : cfg.localIps = []
  · exact ⟨es, s.localIpIndex, by simp [nextSourceIp, hips], h⟩
  · have hpos := List.length_pos_of_ne_nil hips
    obtain ⟨fs, hrun⟩ := run_skips hurl hroute hips (cfg.localIps.length - 1) h hpool hidle
    refine ⟨fs, _, ?_, hrun⟩
    have hround : s.localIpIndex + (cfg.localIps.length - 1) = cfg.localIps.length := by
      rw [hindex]
      simp only [nextSourceIp, List.isEmpty_iff, hips, if_false]
      omega
    simp [nextSourceIp, hips, hround]

/-- The first request after its answer, over the connection it opened. -/
def answered (cfg : HyperConfig Ip Net) (route : Route Ip) (addr : Ip) : HyperPool Ip :=
  let key := route.key (nextSourceIp cfg 0).1
  { HyperPool.new.setRequest 0 (.draining route key ⟨0, key, addr, serverName route⟩ []) with
    localIpIndex := (nextSourceIp cfg 0).2
    opened := 1 }

theorem run_answered {url : Str} {route : Route Ip} (hurl : url ∈ urls)
    (hroute : Route.ofUrl lib cfg url = .ok route) {addr : Ip}
    (htarget : route.target = .ip addr route.port) :
    (hyperSystem lib cfg).Runs (fun _ e => e.StartsIn urls)
      [.start 0 url, .acquire 0, .opened 0 none, .respond 0 []] (answered cfg route addr) := by
  let key := route.key (nextSourceIp cfg 0).1
  let conn : Conn Ip := ⟨0, key, addr, serverName route⟩
  let started : HyperPool Ip :=
    { HyperPool.new.setRequest 0 (.routed route key) with
      localIpIndex := (nextSourceIp cfg 0).2 }
  have hstart : (hyperSystem lib cfg).step .new (.start 0 url) = some started := by
    simp only [hyperSystem, step, new, hroute]
    rfl
  have hacquire : (hyperSystem lib cfg).step started (.acquire 0) =
      some (started.setRequest 0 (.opening route key)) := by
    simp [hyperSystem, step, tryAcquire, started, setRequest, new]
  have hopen : (hyperSystem lib cfg).step (started.setRequest 0 (.opening route key))
      (.opened 0 none) =
      some { started.setRequest 0 (.sending route key conn) with opened := 1 } := by
    simp [hyperSystem, step, started, setRequest, new, htarget, connectAddress, conn]
  have hrespond : (hyperSystem lib cfg).step
      { started.setRequest 0 (.sending route key conn) with opened := 1 } (.respond 0 []) =
      some (answered cfg route addr) := by
    simp [hyperSystem, step, started, setRequest, new, answered, key, conn]
  have hinit : (hyperSystem lib cfg).Runs (fun _ e => e.StartsIn urls) [] .new := .start rfl
  have hrun := hinit.next (by exact hurl) hstart
  exact ((hrun.next (by trivial) hacquire).next (by trivial) hopen).next (by trivial) hrespond

/-- A response without headers leaves its connection to the pool. -/
theorem finish_silent (hreuse : cfg.noConnectionReuse = false) (s : HyperPool Ip) (r : ℕ)
    (key : RouteKey Ip) (conn : Conn Ip) :
    s.finish cfg r key conn [] = (s.setRequest r .idle).release key conn := by
  have hclose : connectionCloseRequested [] = false := rfl
  simp only [finish, hreuse, List.any_nil, List.map_nil, hclose, Bool.or_self, Bool.false_eq_true,
    if_false]

/-- A request for the one URL, then a request for the other on its connection. -/
theorem shared_of_ambiguous (hreuse : cfg.noConnectionReuse = false)
    (h : Ambiguous lib cfg urls) :
    ∃ es s, (hyperSystem lib cfg).Runs (fun _ e => e.StartsIn urls) es s ∧ ¬s.Isolated := by
  obtain ⟨url, hurl, url', hurl', route, route', hroute, hroute', hhttps, hhttps', hkey, hne, addr,
    htarget⟩ := h.mapped
  obtain ⟨es, i, hi, hrun⟩ :=
    run_sameSource hurl hroute (run_answered hurl hroute htarget) (fun _ => rfl) rfl rfl
  let key := route.key (nextSourceIp cfg 0).1
  let conn : Conn Ip := ⟨0, key, addr, serverName route⟩
  let released : HyperPool Ip :=
    ({ answered cfg route addr with localIpIndex := i }.setRequest 0 .idle).release key conn
  have hdrained : (hyperSystem lib cfg).step { answered cfg route addr with localIpIndex := i }
      (.drained 0) = some released := by
    have hpc : (answered cfg route addr).requests 0 = .draining route key conn [] := rfl
    simp only [hyperSystem, step, hpc, finish_silent hreuse]
    rfl
  let restarted : HyperPool Ip :=
    { released.setRequest 1 (.routed route' key) with localIpIndex := (nextSourceIp cfg i).2 }
  have hstart : (hyperSystem lib cfg).step released (.start 1 url') = some restarted := by
    have hidle : released.requests 1 = .idle := rfl
    simp only [hyperSystem, step, hidle, hroute', ← hkey]
    simp only [restarted, key, ← hi]
    rfl
  let shared : HyperPool Ip :=
    setRequest { restarted with pool := Function.update restarted.pool key [] } 1
      (.sending route' key conn)
  have hacquire : (hyperSystem lib cfg).step restarted (.acquire 1) = some shared := by
    have hpool : restarted.pool key = [conn] := by
      simp [restarted, released, release, answered, setRequest, new]
    have hpc : restarted.requests 1 = .routed route' key := by simp [restarted, setRequest]
    simp only [hyperSystem, step, hpc, hreuse, tryAcquire, hpool]
    rfl
  have hrun' := (hrun.next (by trivial) hdrained).next (by exact hurl') hstart
  refine ⟨_, shared, hrun'.next (by trivial) hacquire, fun hisolated => hne ?_⟩
  have hname := hisolated 1 route' conn (by simp [shared, setRequest, RequestPc.inUse]) hhttps'
  simpa [conn, serverName, hhttps] using hname

/-! ## The server names of a client -/

/-- HTTPS requests are written to connections of their server name, and no connection serves
two names. -/
structure Isolation (lib : NetLib Ip Net) (cfg : HyperConfig Ip Net) (urls : Set Str) : Prop where
  written : ∀ es s, (hyperSystem lib cfg).Runs (fun _ e => e.StartsIn urls) es s → s.Isolated
  apart : ∀ es s fs s', (hyperSystem lib cfg).Runs (fun _ e => e.StartsIn urls) es s →
    (hyperSystem lib cfg).Runs (fun _ e => e.StartsIn urls) (es ++ fs) s' →
    ∀ r r' route route' conn, (s.requests r).inUse = some (route, conn) →
      (s'.requests r').inUse = some (route', conn) → route.transport = .https →
      route'.transport = .https → route.host = route'.host

theorem isolation_iff (lib : NetLib Ip Net) (cfg : HyperConfig Ip Net) (urls : Set Str) :
    Isolation lib cfg urls ↔ cfg.noConnectionReuse = true ∨ ¬Ambiguous lib cfg urls := by
  constructor
  · intro h
    by_contra hurls
    rw [not_or, Bool.not_eq_true, not_not] at hurls
    obtain ⟨es, s, hrun, hshared⟩ := shared_of_ambiguous hurls.1 hurls.2
    exact hshared (h.written es s hrun)
  · intro hurls
    have hwritten : ∀ es s, (hyperSystem lib cfg).Runs (fun _ e => e.StartsIn urls) es s →
        s.Isolated := fun es s hrun => (sourced_of_run hurls hrun).isolated
    refine ⟨hwritten, ?_⟩
    intro es s fs s' hrun hrun' r r' route route' conn huse huse' hhttps hhttps'
    have hname := hwritten es s hrun r route conn huse hhttps
    have hname' := hwritten _ s' hrun' r' route' conn huse' hhttps'
    exact Option.some.inj (hname.symm.trans hname')

/-! ## Two names of one address -/

/-- Two HTTPS URLs, and one address. -/
def twoNames : NetLib Unit Unit where
  parseIp := fun text => if text = "10.0.0.1".toList then some () else none
  showIp := fun _ => "10.0.0.1".toList
  contains := fun _ _ => false
  parseUri url :=
    if url = "https://a.example/".toList then
      some ⟨some "https".toList, some "a.example".toList, none⟩
    else if url = "https://b.example/".toList then
      some ⟨some "https".toList, some "b.example".toList, none⟩
    else none
  joinUrl _ location := some location

/-- Both names have the address. -/
def oneAddress : HyperConfig Unit Unit :=
  { plainConfig Unit Unit with
    hosts :=
      { entries := [("a.example".toList, "10.0.0.1".toList),
        ("b.example".toList, "10.0.0.1".toList)]
        nodup := by decide } }

theorem not_isolation_of_one_address :
    ¬∀ (lib : NetLib Unit Unit) (cfg : HyperConfig Unit Unit), Isolation lib cfg Set.univ := by
  intro h
  have hexec : ∃ s : HyperPool Unit, (hyperSystem twoNames oneAddress).AnyRun
      [.start 0 "https://a.example/".toList, .acquire 0, .opened 0 none, .respond 0 [],
        .drained 0, .start 1 "https://b.example/".toList, .acquire 1] s ∧
      ∃ used ∈ (s.requests 1).inUse, used.1.transport = .https ∧
        used.2.serverName ≠ some used.1.host :=
    StepSystem.exists_run_of_exec _ (s := .new) rfl (by decide +kernel)
  obtain ⟨s, hrun, used, huse, hhttps, hname⟩ := hexec
  refine hname ((h twoNames oneAddress).written _ s (hrun.mono fun _ e _ => ?_) 1 _ _ huse hhttps)
  cases e <;> trivial

end HyperPool

end K6Rs
