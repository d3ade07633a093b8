import K6Rs.Verification.Http.Pool
import K6Rs.Verification.Http.Route

/-! # Where routes and connections come from -/

namespace K6Rs

namespace HyperPool

variable {Ip Net : Type}

/-- The URL of an event that starts a request is one of `urls`. -/
def Event.StartsIn (urls : Set Str) : Event Ip → Prop
  | .start _ url => url ∈ urls
  | _ => True

/-- The route and the slot are those of one of the URLs. -/
def FromUrl (lib : NetLib Ip Net) (cfg : HyperConfig Ip Net) (urls : Set Str) (route : Route Ip)
    (key : RouteKey Ip) : Prop :=
  ∃ url ∈ urls, ∃ src, Route.ofUrl lib cfg url = .ok route ∧ key = route.key src

def Routed (lib : NetLib Ip Net) (cfg : HyperConfig Ip Net) (urls : Set Str) :
    RequestPc Ip → Prop
  | .idle => True
  | .routed route key => FromUrl lib cfg urls route key
  | .opening route key => FromUrl lib cfg urls route key
  | .sending route key _ => FromUrl lib cfg urls route key
  | .draining route key _ _ => FromUrl lib cfg urls route key

/-- The connection was opened for one of the URLs. -/
def OpenedFor (lib : NetLib Ip Net) (cfg : HyperConfig Ip Net) (urls : Set Str) (c : Conn Ip) :
    Prop :=
  ∃ route answer, FromUrl lib cfg urls route c.key ∧ c.serverName = serverName route ∧
    connectAddress lib cfg (fun _ => answer) route.target = .ok c.addr

structure Provenance (lib : NetLib Ip Net) (cfg : HyperConfig Ip Net) (urls : Set Str)
    (s : HyperPool Ip) : Prop where
  placed : s.Placed
  routed : ∀ r, Routed lib cfg urls (s.requests r)
  conn : ∀ c p, s.At c p → OpenedFor lib cfg urls c

variable {lib : NetLib Ip Net} {cfg : HyperConfig Ip Net} {urls : Set Str}

theorem Provenance.opens {s s' : HyperPool Ip} {c : Conn Ip} (h : s.Provenance lib cfg urls)
    (ho : Opens lib cfg s s' c) : OpenedFor lib cfg urls c := by
  obtain ⟨r, route, answer, hpc, hname, haddr⟩ := ho.request
  have hfrom := h.routed r
  rw [hpc] at hfrom
  exact ⟨route, answer, hfrom, hname, haddr⟩

theorem provenance_new : (HyperPool.new : HyperPool Ip).Provenance lib cfg urls where
  placed := placed_new
  routed _ := trivial
  conn c p hat := by cases p <;> cases hat

variable [DecidableEq Ip]

theorem routed_of_steps {s s' : HyperPool Ip} {e : Event Ip} (h : s.Provenance lib cfg urls)
    (he : e.StartsIn urls) (hs : Steps lib cfg s e s') (q : ℕ) :
    Routed lib cfg urls (s'.requests q) := by
  have hfrom (r : ℕ) {pc : RequestPc Ip} (hpc : s.requests r = pc) : Routed lib cfg urls pc :=
    hpc ▸ h.routed r
  cases hs with
  | start r url route hpc hroute =>
      exact forall_setRequest h.routed (by exact ⟨url, he, _, hroute, rfl⟩) r q
  | hit r route key conn rest hreuse hpc hpool =>
      have hroute : FromUrl lib cfg urls route key := hfrom r hpc
      exact forall_setRequest (s := { s with pool := Function.update s.pool key rest }) h.routed
        (by exact hroute) r q
  | miss r route key hpc =>
      have hroute : FromUrl lib cfg urls route key := hfrom r hpc
      exact forall_setRequest h.routed (by exact hroute) r q
  | opened r answer route key addr hpc haddr =>
      have hroute : FromUrl lib cfg urls route key := hfrom r hpc
      exact forall_setRequest h.routed (by exact hroute) r q
  | unopened _ r => exact forall_setRequest h.routed (by trivial) r q
  | failed _ r => exact forall_setRequest h.routed (by trivial) r q
  | respond r route key conn headers hpc =>
      have hroute : FromUrl lib cfg urls route key := hfrom r hpc
      exact forall_setRequest h.routed (by exact hroute) r q
  | drained r route key conn headers hpc =>
      rw [requests_finish]
      exact forall_setRequest h.routed (by trivial) r q

theorem Provenance.step {s s' : HyperPool Ip} {e : Event Ip} (h : s.Provenance lib cfg urls)
    (he : e.StartsIn urls) (hs : Steps lib cfg s e s') : s'.Provenance lib cfg urls where
  placed := h.placed.step hs
  routed := routed_of_steps h he hs
  conn c p hat := by
    rcases moved_of_steps h.placed hs with ⟨-, hsame⟩ | ⟨conn, q, hmoves⟩
    · exact h.conn c p ((hsame c p).mp hat)
    · rcases (hmoves.at_iff c p).mp hat with ⟨rfl, -⟩ | ⟨-, hat⟩
      · rcases hmoves.origin with ⟨-, q', hold⟩ | hopens
        · exact h.conn c q' hold
        · exact h.opens hopens
      · exact h.conn c p hat

theorem provenance_of_run {es : List (Event Ip)} {s : HyperPool Ip}
    (h : (hyperSystem lib cfg).Runs (fun _ e => e.StartsIn urls) es s) :
    s.Provenance lib cfg urls := by
  refine h.invariant (I := Provenance lib cfg urls) (fun s hs => ?_) fun _ _ _ hI he hs =>
    hI.step he (steps_of_step hs)
  subst hs
  exact provenance_new

end HyperPool

end K6Rs
