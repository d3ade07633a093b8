import K6Rs.Model.HyperPool

/-! The hops of a request of the hyper client: where each one connects to. The pool is the
one that the other requests leave at that time. -/

namespace K6Rs

variable {Ip Net : Type} [DecidableEq Ip]

/-- What one hop meets. -/
structure Hop (lib : NetLib Ip Net) (cfg : HyperConfig Ip Net) where
  pool : HyperPool Ip
  reached : ∃ es, (hyperSystem lib cfg).AnyRun es pool
  /-- The first answer of the resolver. -/
  lookup : Str → Option Ip
  /-- The response, unless the hop fails on the connection. -/
  answer : Option HyperResponse

variable {lib : NetLib Ip Net} {cfg : HyperConfig Ip Net}

namespace Hop

/-- The idle connection that the hop finds for a route. -/
def pooled (hop : Hop lib cfg) (route : Route Ip) : Option (Conn Ip) :=
  if cfg.noConnectionReuse then none
  else
    let key := route.key (HyperPool.nextSourceIp cfg hop.pool.localIpIndex).1
    (hop.pool.tryAcquire key).map Prod.fst

/-- The first part of `send_once`: the host of the URL, and the address of the connection. -/
def dial (hop : Hop lib cfg) (url : Str) : Except Str (Str × Ip) := do
  let route ← Route.ofUrl lib cfg url
  match hop.pooled route with
  | some conn => return (route.host, conn.addr)
  | none => do
      let addr ← connectAddress lib cfg hop.lookup route.target
      return (route.host, addr)

end Hop

/-- The loop of `send_inner`: the hosts and addresses that are connected to, and the error
that ends the loop. -/
def hyperVisits (url : Str) (redirectsFollowed : ℕ) :
    List (Hop lib cfg) → List (Str × Ip) × Option Str
  | [] => ([], none)
  | hop :: rest =>
      match hop.dial url with
      | .error detail => ([], some detail)
      | .ok visit =>
          match hop.answer with
          | none => ([visit], none)
          | some response =>
              match redirectTarget lib response url with
              | .error detail => ([visit], some detail)
              | .ok none => ([visit], none)
              | .ok (some nextUrl) =>
                  if cfg.maxRedirects = 0 then ([visit], none)
                  else if cfg.maxRedirects ≤ redirectsFollowed then
                    ([visit], some ("too many redirects: exceeded maxRedirects=".toList ++
                      Nat.toDigits 10 cfg.maxRedirects))
                  else
                    let (more, error) := hyperVisits nextUrl (redirectsFollowed + 1) rest
                    (visit :: more, error)

end K6Rs
