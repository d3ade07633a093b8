import K6Rs.Library.Except
import K6Rs.Model.HyperClient

/-! # Routes -/

namespace K6Rs

namespace Route

variable {Ip Net : Type} {lib : NetLib Ip Net} {cfg : HyperConfig Ip Net}

/-- What the client has checked of the route of a URL, and how it found the target. -/
structure Checked (lib : NetLib Ip Net) (cfg : HyperConfig Ip Net) (url : Str)
    (route : Route Ip) : Prop where
  host : (lib.parseUri url).bind HttpUri.host = some route.host
  hostname : cfg.checkBlockedHostname route.host = .ok ()
  literal : cfg.checkLiteralIpBlacklist lib route.host = .ok ()
  target : (∃ proxy, route.proxy = some proxy ∧ route.targetHost = route.host ∧
      route.target = .host proxy.authority) ∨
    (route.proxy = none ∧ cfg.resolveConnectTarget lib route.host route.port =
      .ok (route.targetHost, route.target))

theorem checked {url : Str} {route : Route Ip} (h : ofUrl lib cfg url = .ok route) :
    Checked lib cfg url route := by
  simp only [ofUrl] at h
  cases huri : lib.parseUri url with
  | none => simp [huri] at h
  | some uri =>
      simp only [huri] at h
      obtain ⟨transport, htransport, h⟩ := Except.bind_eq_ok_iff.mp h
      cases hhost : uri.host with
      | none => simp [hhost] at h
      | some host =>
          simp only [hhost] at h
          obtain ⟨⟨⟩, hname, h⟩ := Except.bind_eq_ok_iff.mp h
          obtain ⟨⟨⟩, hliteral, h⟩ := Except.bind_eq_ok_iff.mp h
          cases hproxy : cfg.proxyFor (uri.scheme.getD "http".toList) host with
          | some proxy =>
              simp only [hproxy] at h
              cases h
              exact ⟨by simp [huri, hhost], hname, hliteral, .inl ⟨proxy, rfl, rfl, rfl⟩⟩
          | none =>
              simp only [hproxy] at h
              obtain ⟨⟨targetHost, target⟩, htarget, h⟩ := Except.bind_eq_ok_iff.mp h
              cases h
              exact ⟨by simp [huri, hhost], hname, hliteral, .inr ⟨rfl, htarget⟩⟩

/-- A target host that is not the host of the URL is an address of the `hosts` option. -/
theorem Checked.mapped {url : Str} {route : Route Ip} (h : Checked lib cfg url route)
    (hne : route.targetHost ≠ route.host) : ∃ addr, route.target = .ip addr route.port := by
  rcases h.target with ⟨proxy, -, hhost, -⟩ | ⟨-, htarget⟩
  · exact absurd hhost hne
  · rw [HyperConfig.resolveConnectTarget] at htarget
    split at htarget
    · obtain ⟨⟨⟩, -, heq⟩ := Except.bind_eq_ok_iff.mp htarget
      exact ⟨_, (Prod.mk.inj (Except.ok.inj heq)).2.symm⟩
    · exact absurd (Prod.mk.inj (Except.ok.inj htarget)).1.symm hne

end Route

end K6Rs
