import K6Rs.Model.HyperClient

/-! The client that is built on the reqwest library: its check before a request is sent. The
library resolves names and follows redirects by itself. -/

namespace K6Rs

/-- What the configuration sets of a reqwest client. -/
structure ReqwestSettings (Ip : Type) where
  redirectLimit : ℕ
  /-- The addresses that replace the resolver's answers. -/
  resolve : Str → Option Ip

structure ReqwestLib (Ip : Type) where
  /-- `Url::parse(url).ok()?.host_str()`. -/
  hostStr : Str → Option Str
  /-- The URLs that a client requests for one, the redirects included. -/
  requested : ReqwestSettings Ip → Str → List Str
  /-- The address that a client connects to for a URL: that of a literal or of `resolve`, the
  answer of the resolver, or the address of a proxy. -/
  address : ReqwestSettings Ip → Str → Option Ip

variable {Ip Net : Type} (lib : NetLib Ip Net) (reqwest : ReqwestLib Ip)
  (cfg : HyperConfig Ip Net)

/-- `from_config`; the clients of `localIPs` are built without these two options. -/
def reqwestSettings : ReqwestSettings Ip :=
  if cfg.localIps.isEmpty then { redirectLimit := cfg.maxRedirects, resolve := cfg.mappedIp lib }
  else { redirectLimit := 10, resolve := fun _ => none }

/-- `check_blocked`. -/
def checkBlocked (url : Str) : Except Str Unit :=
  if cfg.blacklistIps.isEmpty && cfg.blockHostnames.isEmpty then .ok ()
  else
    match reqwest.hostStr url with
    | none => .ok ()
    | some host => do
        cfg.checkBlockedHostname host
        if cfg.blacklistIps.isEmpty then return
        else cfg.checkLiteralIpBlacklist lib host

/-- The host and the address of a connection for a URL. -/
def ReqwestLib.connectsTo (settings : ReqwestSettings Ip) (url : Str) : Option (Str × Ip) :=
  (reqwest.hostStr url).bind fun host =>
    (reqwest.address settings url).map fun addr => (host, addr)

/-- `send`: the hosts and addresses that are connected to. -/
def reqwestVisits (url : Str) : Except Str (List (Str × Ip)) := do
  checkBlocked lib reqwest cfg url
  let settings := reqwestSettings lib cfg
  return (reqwest.requested settings url).filterMap (reqwest.connectsTo settings)

end K6Rs
