import K6Rs.Verification.Http.Route

/-! # The blocking checks

Which computations of the hyper client fail with an error of a blocking check. The texts of
the other errors start with other letters. -/

namespace K6Rs

variable {Ip Net : Type} (lib : NetLib Ip Net) (cfg : HyperConfig Ip Net)

/-- An error of one of the blocking checks. -/
def BlockError (detail : Str) : Prop :=
  (∃ host, cfg.checkBlockedHostname host = .error detail) ∨
    ∃ ip, cfg.checkIpBlacklist lib ip = .error detail

/-- The computation fails with an error of a blocking check. -/
def Refuses {α : Type} (x : Except Str α) : Prop :=
  ∃ detail, x = .error detail ∧ BlockError lib cfg detail

/-! ## The checks -/

variable {lib cfg}

/-- The errors of the blocking checks start with one of two words. -/
theorem BlockError.head {detail : Str} (h : BlockError lib cfg detail) :
    detail.head? = some 'h' ∨ detail.head? = some 'I' := by
  rcases h with ⟨host, h⟩ | ⟨ip, h⟩
  · rw [HyperConfig.checkBlockedHostname] at h
    split at h
    · cases h
      exact .inl rfl
    · cases h
  · rw [HyperConfig.checkIpBlacklist] at h
    split at h
    · cases h
      exact .inr rfl
    · cases h

theorem not_blockError {detail : Str} {c : Char} (hhead : detail.head? = some c)
    (hh : c ≠ 'h') (hI : c ≠ 'I') : ¬BlockError lib cfg detail := by
  intro h
  rcases h.head with h | h
  · exact hh (Option.some.inj (hhead.symm.trans h))
  · exact hI (Option.some.inj (hhead.symm.trans h))

theorem not_refuses_error {α : Type} {detail : Str} {c : Char} (hhead : detail.head? = some c)
    (hh : c ≠ 'h') (hI : c ≠ 'I') : ¬Refuses lib cfg (.error detail : Except Str α) := by
  rintro ⟨_, ⟨⟩, h⟩
  exact not_blockError hhead hh hI h

theorem not_refuses_ok {α : Type} (a : α) : ¬Refuses lib cfg (.ok a) := by
  rintro ⟨_, ⟨⟩, -⟩

theorem not_refuses_pure {α : Type} (a : α) : ¬Refuses lib cfg (pure a : Except Str α) :=
  not_refuses_ok a

theorem refuses_bind {α β : Type} {x : Except Str α} {f : α → Except Str β} :
    Refuses lib cfg (x >>= f) ↔ Refuses lib cfg x ∨ ∃ a, x = .ok a ∧ Refuses lib cfg (f a) := by
  cases x with
  | error detail =>
      constructor
      · rintro ⟨_, ⟨⟩, h⟩
        exact .inl ⟨detail, rfl, h⟩
      · rintro (⟨_, ⟨⟩, h⟩ | ⟨_, ⟨⟩, -⟩)
        exact ⟨detail, rfl, h⟩
  | ok a =>
      constructor
      · exact fun h => .inr ⟨a, rfl, h⟩
      · rintro (h | ⟨_, ⟨⟩, h⟩)
        · exact absurd h (not_refuses_ok a)
        · exact h

/-- A check, and what follows it. -/
theorem refuses_check {β : Type} {x : Except Str Unit} {y : Except Str β}
    (hx : x = .ok () ↔ ¬Refuses lib cfg x) :
    Refuses lib cfg (x >>= fun _ => y) ↔ Refuses lib cfg x ∨ Refuses lib cfg y := by
  rw [refuses_bind]
  by_cases h : Refuses lib cfg x
  · simp [h]
  · simp [hx.mpr h]

theorem check_bind_eq_ok_iff {β : Type} {x : Except Str Unit} {y : Except Str β} {b : β}
    (hx : x = .ok () ↔ ¬Refuses lib cfg x) :
    (x >>= fun _ => y) = .ok b ↔ ¬Refuses lib cfg x ∧ y = .ok b := by
  rw [Except.bind_eq_ok_iff, ← hx]
  constructor
  · rintro ⟨⟨⟩, hok, h⟩
    exact ⟨hok, h⟩
  · rintro ⟨hok, h⟩
    exact ⟨(), hok, h⟩

theorem check_ok_iff {x y : Except Str Unit} (hx : x = .ok () ↔ ¬Refuses lib cfg x)
    (hy : y = .ok () ↔ ¬Refuses lib cfg y) :
    (x >>= fun _ => y) = .ok () ↔ ¬Refuses lib cfg (x >>= fun _ => y) := by
  rw [refuses_check hx, not_or, ← hy, check_bind_eq_ok_iff hx]

theorem ok_iff_not_refuses : (.ok () : Except Str Unit) = .ok () ↔
    ¬Refuses lib cfg (.ok () : Except Str Unit) := iff_of_true rfl (not_refuses_ok ())

theorem refuses_hostname {host : Str} :
    Refuses lib cfg (cfg.checkBlockedHostname host) ↔
      cfg.blockHostnames.any (hostnameMatches host) = true := by
  cases h : cfg.blockHostnames.any (hostnameMatches host) with
  | false => simp [HyperConfig.checkBlockedHostname, h, not_refuses_ok]
  | true =>
      refine iff_of_true ?_ rfl
      have herror : ∃ detail, cfg.checkBlockedHostname host = .error detail :=
        ⟨_, by rw [HyperConfig.checkBlockedHostname, if_pos h]⟩
      exact herror.imp fun detail hd => ⟨hd, .inl ⟨host, hd⟩⟩

theorem refuses_ip {ip : Ip} :
    Refuses lib cfg (cfg.checkIpBlacklist lib ip) ↔ cfg.blacklisted lib ip = true := by
  cases h : cfg.blacklisted lib ip with
  | false => simp [HyperConfig.checkIpBlacklist, h, not_refuses_ok]
  | true =>
      refine iff_of_true ?_ rfl
      have herror : ∃ detail, cfg.checkIpBlacklist lib ip = .error detail :=
        ⟨_, by rw [HyperConfig.checkIpBlacklist, if_pos h]⟩
      exact herror.imp fun detail hd => ⟨hd, .inr ⟨ip, hd⟩⟩

theorem refuses_literal {host : Str} :
    Refuses lib cfg (cfg.checkLiteralIpBlacklist lib host) ↔
      ∃ ip, lib.parseIp host = some ip ∧ cfg.blacklisted lib ip = true := by
  rw [HyperConfig.checkLiteralIpBlacklist]
  cases lib.parseIp host with
  | none => simp [not_refuses_ok]
  | some ip => simp [refuses_ip]

theorem hostname_ok_iff {host : Str} :
    cfg.checkBlockedHostname host = .ok () ↔ ¬Refuses lib cfg (cfg.checkBlockedHostname host) := by
  rw [refuses_hostname, HyperConfig.checkBlockedHostname]
  cases cfg.blockHostnames.any (hostnameMatches host) <;> simp

theorem ip_ok_iff {ip : Ip} :
    cfg.checkIpBlacklist lib ip = .ok () ↔ ¬Refuses lib cfg (cfg.checkIpBlacklist lib ip) := by
  rw [refuses_ip, HyperConfig.checkIpBlacklist]
  cases cfg.blacklisted lib ip <;> simp

theorem literal_ok_iff {host : Str} :
    cfg.checkLiteralIpBlacklist lib host = .ok () ↔
      ¬Refuses lib cfg (cfg.checkLiteralIpBlacklist lib host) := by
  rw [HyperConfig.checkLiteralIpBlacklist]
  cases lib.parseIp host with
  | none => simp [not_refuses_ok]
  | some ip => exact ip_ok_iff

/-! ## The routes that are refused -/

theorem resolve_eq_ok_iff {host : Str} {port : ℕ} {found : Str × ConnectTarget Ip} :
    cfg.resolveConnectTarget lib host port = .ok found ↔
      ((cfg.mappedIp lib host).elim (host, .host (hostPort host port))
          fun ip => (lib.showIp ip, .ip ip port)) = found ∧
        ∀ ip ∈ cfg.mappedIp lib host, cfg.blacklisted lib ip = false := by
  rw [HyperConfig.resolveConnectTarget]
  cases cfg.mappedIp lib host with
  | none => simp
  | some ip => cases h : cfg.blacklisted lib ip <;> simp [HyperConfig.checkIpBlacklist, h]

theorem refuses_resolve {host : Str} {port : ℕ} :
    Refuses lib cfg (cfg.resolveConnectTarget lib host port) ↔
      ∃ ip, cfg.mappedIp lib host = some ip ∧ cfg.blacklisted lib ip = true := by
  rw [HyperConfig.resolveConnectTarget]
  cases cfg.mappedIp lib host with
  | none => simp [not_refuses_ok]
  | some ip =>
      simp only [refuses_check ip_ok_iff, refuses_ip, Option.some.injEq, exists_eq_left']
      exact or_iff_left (not_refuses_ok _)

theorem not_refuses_transport {scheme : Str} : ¬Refuses lib cfg (transportForScheme scheme) := by
  rw [transportForScheme]
  split
  · exact not_refuses_ok _
  · split
    · exact not_refuses_ok _
    · exact not_refuses_error (c := 'u') rfl (by decide) (by decide)

namespace Route

variable (lib cfg)

/-- The route to a host that is not looked at. -/
def toHost (transport : Transport) (scheme host : Str) (port : ℕ) : Route Ip :=
  match cfg.proxyFor scheme host with
  | some proxy => ⟨transport, host, port, host, .host proxy.authority, some proxy⟩
  | none =>
      match cfg.mappedIp lib host with
      | some ip => ⟨transport, host, port, lib.showIp ip, .ip ip port, none⟩
      | none => ⟨transport, host, port, host, .host (hostPort host port), none⟩

/-- The route of a URL before the checks. -/
def unchecked (url : Str) : Option (Route Ip) :=
  (lib.parseUri url).bind fun uri =>
    let scheme := uri.scheme.getD "http".toList
    (transportForScheme scheme).toOption.bind fun transport =>
      uri.host.map fun host =>
        toHost lib cfg transport scheme host (uri.port.getD (defaultPort transport))

/-- The address that the host spells, and the one that it is mapped to. -/
def knownAddresses (route : Route Ip) : List Ip :=
  (lib.parseIp route.host).toList ++
    match route.target with
    | .ip addr _ => [addr]
    | .host _ => []

/-- The host matches a pattern as it is spelt, or has a known address in a blocked range. -/
def caught (route : Route Ip) : Bool :=
  cfg.blockHostnames.any (hostnameMatches route.host) ||
    (route.knownAddresses lib).any (cfg.blacklisted lib)

variable {lib cfg}

theorem refuses_ofUrl {url : Str} :
    Refuses lib cfg (ofUrl lib cfg url) ↔
      ∃ route, unchecked lib cfg url = some route ∧ route.caught lib cfg = true := by
  rw [unchecked, ofUrl]
  cases lib.parseUri url with
  | none =>
      exact iff_of_false (not_refuses_error (c := 'i') rfl (by decide) (by decide)) (by simp)
  | some uri =>
      generalize hscheme : uri.scheme.getD "http".toList = scheme
      simp only [hscheme, refuses_bind, not_refuses_transport, false_or, Option.bind_some]
      cases transportForScheme scheme with
      | error detail => simp [Except.toOption]
      | ok transport =>
          simp only [Except.toOption, Option.bind_some, Except.ok.injEq, exists_eq_left']
          cases uri.host with
          | none =>
              exact iff_of_false (not_refuses_error (c := 'U') rfl (by decide) (by decide))
                (by simp)
          | some host =>
              simp only [refuses_check hostname_ok_iff, refuses_check literal_ok_iff,
                refuses_hostname, refuses_literal, Option.map_some, Option.some.injEq,
                exists_eq_left', toHost]
              cases cfg.proxyFor scheme host with
              | some proxy => simp [not_refuses_pure, caught, knownAddresses]
              | none =>
                  simp only [refuses_bind, refuses_resolve, not_refuses_pure, and_false,
                    exists_false, or_false]
                  cases cfg.mappedIp lib host with
                  | none => simp [caught, knownAddresses]
                  | some ip => simp [caught, knownAddresses]

/-- The route is that of the host, and the checks pass. -/
theorem ofUrl_eq_ok_iff {url : Str} {route : Route Ip} :
    ofUrl lib cfg url = .ok route ↔
      unchecked lib cfg url = some route ∧ route.caught lib cfg = false := by
  rw [unchecked, ofUrl]
  cases lib.parseUri url with
  | none => simp
  | some uri =>
      generalize hscheme : uri.scheme.getD "http".toList = scheme
      simp only [hscheme, Option.bind_some]
      cases transportForScheme scheme with
      | error detail => simp [Except.toOption, Except.bind_eq_ok_iff]
      | ok transport =>
          simp only [Except.toOption, Option.bind_some, Except.bind_eq_ok_iff, Except.ok.injEq,
            exists_eq_left']
          cases uri.host with
          | none => simp
          | some host =>
              have hname : cfg.checkBlockedHostname host = .ok () ↔
                  ¬Refuses lib cfg (cfg.checkBlockedHostname host) := hostname_ok_iff
              simp only [Option.map_some, Option.some.injEq, toHost]
              rw [check_bind_eq_ok_iff hname, check_bind_eq_ok_iff literal_ok_iff,
                refuses_hostname, refuses_literal]
              cases cfg.proxyFor scheme host with
              | some proxy =>
                  constructor
                  · rintro ⟨hname, hliteral, h⟩
                    cases h
                    simp_all [caught, knownAddresses]
                  · rintro ⟨rfl, h⟩
                    simp_all [caught, knownAddresses, pure, Except.pure]
              | none =>
                  simp only [Except.bind_eq_ok_iff, resolve_eq_ok_iff]
                  cases cfg.mappedIp lib host with
                  | none =>
                      constructor
                      · rintro ⟨hname, hliteral, _, ⟨rfl, -⟩, h⟩
                        cases h
                        simp_all [caught, knownAddresses]
                      · rintro ⟨rfl, h⟩
                        simp_all [caught, knownAddresses, pure, Except.pure]
                  | some ip =>
                      constructor
                      · rintro ⟨hname, hliteral, _, ⟨rfl, hmapped⟩, h⟩
                        cases h
                        simp_all [caught, knownAddresses]
                      · rintro ⟨rfl, h⟩
                        simp_all [caught, knownAddresses, pure, Except.pure]

end Route

end K6Rs
