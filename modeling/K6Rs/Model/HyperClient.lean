import K6Rs.Library.KeyMap
import K6Rs.Library.Text

/-! The hyper client: the route of a request, the checks before it is sent, its headers,
and the redirect loop. The address types and the URL parsers are those of other crates. -/

namespace K6Rs

/-- A parsed `http::Uri`. -/
structure HttpUri where
  scheme : Option Str
  host : Option Str
  port : Option ℕ

/-- What the client uses of the types of IP addresses and networks and of the URL crates. -/
structure NetLib (Ip Net : Type) where
  parseIp : Str → Option Ip
  showIp : Ip → Str
  contains : Net → Ip → Bool
  /-- `Uri::from_str`. -/
  parseUri : Str → Option HttpUri
  /-- `Url::parse(base)?.join(location)?.to_string()`. -/
  joinUrl : Str → Str → Option Str

inductive Transport where
  | http
  | https
  deriving DecidableEq

structure ProxyRoute where
  scheme : Str
  host : Str
  port : ℕ
  deriving DecidableEq

/-- `format!("{host}:{port}")`. -/
def hostPort (host : Str) (port : ℕ) : Str := host ++ ':' :: Nat.toDigits 10 port

def ProxyRoute.authority (p : ProxyRoute) : Str := hostPort p.host p.port

/-- The slot of the pool that a connection belongs to. -/
structure RouteKey (Ip : Type) where
  transport : Transport
  targetHost : Str
  targetPort : ℕ
  sourceIp : Option Ip
  proxy : Option ProxyRoute
  deriving DecidableEq

inductive ConnectTarget (Ip : Type) where
  | host (authority : Str)
  | ip (addr : Ip) (port : ℕ)

structure HyperConfig (Ip Net : Type) where
  noConnectionReuse : Bool
  blacklistIps : List Net
  blockHostnames : List Str
  hosts : KeyMap Str Str
  maxRedirects : ℕ
  localIps : List Ip
  httpProxy : Option ProxyRoute
  httpsProxy : Option ProxyRoute
  noProxy : List Str

/-! ## The route of a request -/

def transportForScheme (scheme : Str) : Except Str Transport :=
  if scheme = "http".toList then .ok .http
  else if scheme = "https".toList then .ok .https
  else .error ("unsupported URL scheme `".toList ++ scheme ++ "`".toList)

def hostnameMatches (host pattern : Str) : Bool :=
  if "*.".toList.isPrefixOf pattern then
    let suffix := pattern.drop 1
    suffix.isSuffixOf host && Str.utf8Len suffix < Str.utf8Len host
  else host = pattern

namespace HyperConfig

variable {Ip Net : Type} (lib : NetLib Ip Net) (cfg : HyperConfig Ip Net)

/-- The host of an entry of `noProxy`: without its scheme, its port and leading dots. -/
def noProxyHost (pattern : Str) : Str :=
  let p :=
    if "http://".toList.isPrefixOf pattern then pattern.drop 7
    else if "https://".toList.isPrefixOf pattern then pattern.drop 8
    else pattern
  (p.takeWhile (· ≠ ':')).dropWhile (· = '.')

def noProxyMatches (host : Str) : Bool :=
  cfg.noProxy.any fun pattern =>
    let p := Str.trim pattern
    p = ['*'] || host = noProxyHost p || ('.' :: noProxyHost p).isSuffixOf host

def proxyFor (scheme host : Str) : Option ProxyRoute :=
  if cfg.noProxyMatches host then none
  else if scheme = "http".toList then cfg.httpProxy
  else if scheme = "https".toList then cfg.httpsProxy
  else none

def checkBlockedHostname (host : Str) : Except Str Unit :=
  if cfg.blockHostnames.any (hostnameMatches host) then
    .error ("hostname ".toList ++ host ++ " is blocked by blockHostnames".toList)
  else .ok ()

/-- Whether the address lies in a range of `blacklistIPs`. -/
def blacklisted (ip : Ip) : Bool := cfg.blacklistIps.any fun net => lib.contains net ip

def checkIpBlacklist (ip : Ip) : Except Str Unit :=
  if cfg.blacklisted lib ip then
    .error ("IP ".toList ++ lib.showIp ip ++ " is blocked by blacklistIPs".toList)
  else .ok ()

def checkLiteralIpBlacklist (host : Str) : Except Str Unit :=
  match lib.parseIp host with
  | some ip => cfg.checkIpBlacklist lib ip
  | none => .ok ()

/-- The address that the `hosts` option gives for a host. -/
def mappedIp (host : Str) : Option Ip := (cfg.hosts.find? host).bind lib.parseIp

def resolveConnectTarget (host : Str) (port : ℕ) : Except Str (Str × ConnectTarget Ip) :=
  match cfg.mappedIp lib host with
  | some ip => do
      cfg.checkIpBlacklist lib ip
      return (lib.showIp ip, .ip ip port)
  | none => .ok (host, .host (hostPort host port))

end HyperConfig

/-- Where a request goes, before a source address is chosen for it. -/
structure Route (Ip : Type) where
  transport : Transport
  /-- The host of the URL. -/
  host : Str
  port : ℕ
  targetHost : Str
  target : ConnectTarget Ip
  proxy : Option ProxyRoute

namespace Route

variable {Ip Net : Type}

def originAuthority (r : Route Ip) : Str := hostPort r.host r.port

def key (r : Route Ip) (sourceIp : Option Ip) : RouteKey Ip :=
  ⟨r.transport, r.targetHost, r.port, sourceIp, r.proxy⟩

def defaultPort : Transport → ℕ
  | .http => 80
  | .https => 443

/-- The first part of `send_once`: the URL is parsed, checked and routed. -/
def ofUrl (lib : NetLib Ip Net) (cfg : HyperConfig Ip Net) (url : Str) :
    Except Str (Route Ip) :=
  match lib.parseUri url with
  | none => .error "invalid URL".toList
  | some uri => do
      let scheme := uri.scheme.getD "http".toList
      let transport ← transportForScheme scheme
      match uri.host with
      | none => .error "URL missing host".toList
      | some host =>
          let port := uri.port.getD (defaultPort transport)
          cfg.checkBlockedHostname host
          cfg.checkLiteralIpBlacklist lib host
          match cfg.proxyFor scheme host with
          | some proxy =>
              return ⟨transport, host, port, host, .host proxy.authority, some proxy⟩
          | none =>
              let (targetHost, target) ← cfg.resolveConnectTarget lib host port
              return ⟨transport, host, port, targetHost, target, none⟩

end Route

/-- The address that `open_connection` connects to; `lookup` is the first answer of the
resolver. -/
def connectAddress {Ip Net : Type} (lib : NetLib Ip Net) (cfg : HyperConfig Ip Net)
    (lookup : Str → Option Ip) : ConnectTarget Ip → Except Str Ip
  | .ip addr _ => .ok addr
  | .host authority =>
      match lookup authority with
      | none => .error ("DNS lookup failed for ".toList ++ authority)
      | some addr => do
          cfg.checkIpBlacklist lib addr
          return addr

/-! ## Headers -/

abbrev Headers := List (Str × Str)

/-- The first value of a header. -/
def headerValue (headers : Headers) (name : Str) : Option Str :=
  (headers.find? fun header => Str.eqIgnoreAsciiCase header.1 name).map Prod.snd

/-- Whether a `Connection` line lists `close`. -/
def listsClose (line : Str) : Bool :=
  (line.splitOn ',').any fun part => Str.eqIgnoreAsciiCase (Str.trim part) "close".toList

def connectionCloseRequested (headers : Headers) : Bool :=
  ((headerValue headers "connection".toList).map listsClose).getD false

/-- A header line as it came over the wire. -/
structure HeaderLine where
  name : Str
  value : List UInt8
  deriving DecidableEq

namespace HeaderLine

/-- The bytes as characters. -/
def text (line : HeaderLine) : Str := line.value.map fun b => Char.ofNat b.toNat

/-- `HeaderValue::to_str`: the text of a value of visible ASCII characters. -/
def toStr (line : HeaderLine) : Option Str :=
  if line.value.all fun b => b = 9 || 32 ≤ b && b < 127 then some line.text else none

/-- The header as the client keeps it. -/
def kept (line : HeaderLine) : Str × Str := (line.name, line.toStr.getD [])

/-- The line is a `Connection` header that lists `close`. -/
def asksClose (line : HeaderLine) : Bool :=
  Str.eqIgnoreAsciiCase line.name "connection".toList && listsClose line.text

end HeaderLine

/-! ## Redirects -/

inductive HttpMethod where
  | get
  | post
  | put
  | patch
  | delete
  | head
  | options
  deriving DecidableEq

structure HyperRequest where
  method : HttpMethod
  url : Str
  headers : Headers
  body : Option (List UInt8)

structure HyperResponse where
  status : ℕ
  headers : Headers

/-- The headers of the request that is sent. -/
def requestHeaders (req : HyperRequest) (authority userAgent : Str) : Headers :=
  let hasUserAgent := req.headers.any fun header =>
    Str.eqIgnoreAsciiCase header.1 "user-agent".toList
  ("host".toList, authority) ::
    ((if hasUserAgent then [] else [("user-agent".toList, userAgent)]) ++ req.headers)

/-- Which names and values the request builder takes. -/
structure HeaderLib where
  validName : Str → Bool
  validValue : Str → Bool

def buildRequestHeaders (lib : HeaderLib) (req : HyperRequest) (authority userAgent : Str) :
    Except Str Headers :=
  let valid := req.headers.all fun header => lib.validName header.1 && lib.validValue header.2
  if lib.validValue authority && valid then .ok (requestHeaders req authority userAgent)
  else .error "constructing hyper Request".toList

variable {Ip Net : Type}

def redirectTarget (lib : NetLib Ip Net) (response : HyperResponse) (baseUrl : Str) :
    Except Str (Option Str) :=
  if response.status ∉ [301, 302, 303, 307, 308] then .ok none
  else
    match headerValue response.headers "location".toList with
    | none => .ok none
    | some location =>
        match lib.joinUrl baseUrl location with
        | none => .error ("invalid redirect Location ".toList ++ location)
        | some next => .ok (some next)

def redirectedRequest (req : HyperRequest) (nextUrl : Str) (status : ℕ) : HyperRequest :=
  if status ∈ [301, 302, 303] ∧ req.method = .post then
    { method := .get
      body := none
      headers := req.headers.filter fun header =>
        !Str.eqIgnoreAsciiCase header.1 "content-length".toList &&
          !Str.eqIgnoreAsciiCase header.1 "content-type".toList
      url := nextUrl }
  else { req with url := nextUrl }

/-- How a request ends that could be routed. -/
inductive Exchange where
  /-- It fails before anything of it is written. -/
  | unsent (detail : Str)
  /-- It fails later. -/
  | broken (detail : Str)
  | answered (response : HyperResponse)

structure SentRequest where
  host : Str
  method : HttpMethod
  headers : Headers
  url : Str
  body : List UInt8

/-- The loop of `send_inner` after the redirects it has followed; each request that is
routed meets the next of the exchanges. It returns what was sent and how it ended; where
the exchanges end it still waits. -/
def sendInner (lib : NetLib Ip Net) (cfg : HyperConfig Ip Net) (userAgent : Str)
    (current : HyperRequest) (redirectsFollowed : ℕ) :
    List Exchange → List SentRequest × Option (Except Str HyperResponse)
  | [] => ([], none)
  | exchange :: rest =>
      match Route.ofUrl lib cfg current.url with
      | .error detail => ([], some (.error detail))
      | .ok route =>
          let sent : SentRequest :=
            { host := route.host
              method := current.method
              headers := requestHeaders current route.originAuthority userAgent
              url := current.url
              body := current.body.getD [] }
          match exchange with
          | .unsent detail => ([], some (.error detail))
          | .broken detail => ([sent], some (.error detail))
          | .answered response =>
              match redirectTarget lib response current.url with
              | .error detail => ([sent], some (.error detail))
              | .ok none => ([sent], some (.ok response))
              | .ok (some nextUrl) =>
                  if cfg.maxRedirects = 0 then ([sent], some (.ok response))
                  else if cfg.maxRedirects ≤ redirectsFollowed then
                    ([sent], some (.error ("too many redirects: exceeded maxRedirects=".toList ++
                      Nat.toDigits 10 cfg.maxRedirects)))
                  else
                    let next := redirectedRequest current nextUrl response.status
                    let (more, result) :=
                      sendInner lib cfg userAgent next (redirectsFollowed + 1) rest
                    (sent :: more, result)

end K6Rs
