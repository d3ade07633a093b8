import K6Rs.Model.HyperPool

/-! # The places of the connections of the hyper client

A connection is in one slot of the pool, or in use by one request, or closed. Every step
moves at most one connection, and the invariant follows from where it moves it. -/

namespace K6Rs

namespace HyperPool

variable {Ip Net : Type}

inductive Place (Ip : Type) where
  | idle (key : RouteKey Ip)
  | used (r : ℕ)
  | closed

/-- The connection `c` is at the place `p`. -/
def At (s : HyperPool Ip) (c : Conn Ip) : Place Ip → Prop
  | .idle key => c ∈ s.pool key
  | .used r => (s.requests r).conn = some c
  | .closed => c ∈ s.closed

/-- The slot of a request in progress is the one its connection was opened for. -/
def Keyed : RequestPc Ip → Prop
  | .sending _ key conn => conn.key = key
  | .draining _ key conn _ => conn.key = key
  | _ => True

/-- Every connection has one place, and is in no slot but its own. -/
structure Placed (s : HyperPool Ip) : Prop where
  fresh : ∀ c p, s.At c p → c.id < s.opened
  unique : ∀ c c' p p', s.At c p → s.At c' p' → c.id = c'.id → c = c' ∧ p = p'
  total : ∀ i, i < s.opened → ∃ c p, c.id = i ∧ s.At c p
  slot : ∀ c key, s.At c (.idle key) → c.key = key
  nodup : ∀ key, (s.pool key).Nodup
  keyed : ∀ r, Keyed (s.requests r)

theorem Placed.place_unique {s : HyperPool Ip} (h : s.Placed) {c : Conn Ip} {p p' : Place Ip}
    (hp : s.At c p) (hp' : s.At c p') : p = p' :=
  (h.unique c c p p' hp hp' rfl).2

theorem Placed.not_mem_pool {s : HyperPool Ip} (h : s.Placed) {r : ℕ} {conn : Conn Ip}
    (hconn : (s.requests r).conn = some conn) (key : RouteKey Ip) : conn ∉ s.pool key := by
  intro hmem
  have hidle : s.At conn (.idle key) := hmem
  have hused : s.At conn (.used r) := hconn
  cases h.place_unique hidle hused

theorem Placed.key_eq {s : HyperPool Ip} (h : s.Placed) {r : ℕ} {route : Route Ip}
    {key : RouteKey Ip} {conn : Conn Ip} {headers : List HeaderLine}
    (hpc : s.requests r = .draining route key conn headers) : conn.key = key := by
  have := h.keyed r
  rwa [hpc] at this

/-- A request opens the connection `conn` in this step. -/
structure Opens (lib : NetLib Ip Net) (cfg : HyperConfig Ip Net) (s s' : HyperPool Ip)
    (conn : Conn Ip) : Prop where
  id : conn.id = s.opened
  opened : s'.opened = s.opened + 1
  request : ∃ r route answer, s.requests r = .opening route conn.key ∧
    conn.serverName = serverName route ∧
    connectAddress lib cfg (fun _ => answer) route.target = .ok conn.addr

/-- The step moves `conn`, which has a place or is opened, to `p`, and moves nothing else. -/
structure Moves (lib : NetLib Ip Net) (cfg : HyperConfig Ip Net) (s s' : HyperPool Ip)
    (conn : Conn Ip) (p : Place Ip) : Prop where
  at_iff : ∀ c q, s'.At c q ↔ (c = conn ∧ q = p) ∨ (c ≠ conn ∧ s.At c q)
  origin : (s'.opened = s.opened ∧ ∃ q, s.At conn q) ∨ Opens lib cfg s s' conn
  slot : ∀ key, p = .idle key → conn.key = key

variable {lib : NetLib Ip Net} {cfg : HyperConfig Ip Net}

theorem Placed.moves {s s' : HyperPool Ip} (h : s.Placed) {conn : Conn Ip} {p : Place Ip}
    (hm : Moves lib cfg s s' conn p) (hnodup : ∀ key, (s'.pool key).Nodup)
    (hkeyed : ∀ r, Keyed (s'.requests r)) : s'.Placed := by
  have hopened : s.opened ≤ s'.opened := by
    rcases hm.origin with ⟨h, -⟩ | ⟨-, h, -⟩ <;> omega
  have hother : ∀ c q, c ≠ conn → s.At c q → c.id ≠ conn.id := by
    intro c q hne hat heq
    rcases hm.origin with ⟨-, q', hat'⟩ | ⟨hid, -, -⟩
    · exact hne (h.unique c conn q q' hat hat' heq).1
    · have := h.fresh c q hat
      omega
  refine ⟨?_, ?_, ?_, ?_, hnodup, hkeyed⟩
  · intro c q hat
    rcases (hm.at_iff c q).mp hat with ⟨rfl, -⟩ | ⟨-, hat⟩
    · rcases hm.origin with ⟨h', q', hat'⟩ | ⟨h', h'', -⟩
      · have := h.fresh _ _ hat'
        omega
      · omega
    · exact (h.fresh c q hat).trans_le hopened
  · intro c c' q q' hat hat' hid
    rcases (hm.at_iff c q).mp hat with ⟨rfl, rfl⟩ | ⟨hne, hat⟩
    · rcases (hm.at_iff c' q').mp hat' with ⟨rfl, rfl⟩ | ⟨hne', hat'⟩
      · exact ⟨rfl, rfl⟩
      · exact absurd hid.symm (hother c' q' hne' hat')
    · rcases (hm.at_iff c' q').mp hat' with ⟨rfl, rfl⟩ | ⟨hne', hat'⟩
      · exact absurd hid (hother c q hne hat)
      · exact h.unique c c' q q' hat hat' hid
  · intro i hi
    by_cases hconn : conn.id = i
    · exact ⟨conn, p, hconn, (hm.at_iff conn p).mpr (.inl ⟨rfl, rfl⟩)⟩
    · have hold : i < s.opened := by
        rcases hm.origin with ⟨h', -⟩ | ⟨h', h'', -⟩ <;> omega
      obtain ⟨c, q, rfl, hat⟩ := h.total i hold
      have hne : c ≠ conn := fun hc => hconn (hc ▸ rfl)
      exact ⟨c, q, rfl, (hm.at_iff c q).mpr (.inr ⟨hne, hat⟩)⟩
  · intro c key hat
    rcases (hm.at_iff c (.idle key)).mp hat with ⟨rfl, hp⟩ | ⟨-, hat⟩
    · exact hm.slot key hp.symm
    · exact h.slot c key hat

/-- A step that moves no connection. -/
theorem Placed.stays {s s' : HyperPool Ip} (h : s.Placed) (hat : ∀ c q, s'.At c q ↔ s.At c q)
    (hopened : s'.opened = s.opened) (hnodup : ∀ key, (s'.pool key).Nodup)
    (hkeyed : ∀ r, Keyed (s'.requests r)) : s'.Placed := by
  refine ⟨?_, ?_, ?_, ?_, hnodup, hkeyed⟩
  · intro c p hp
    exact hopened ▸ h.fresh c p ((hat c p).mp hp)
  · intro c c' p p' hp hp'
    exact h.unique c c' p p' ((hat c p).mp hp) ((hat c' p').mp hp')
  · intro i hi
    obtain ⟨c, p, hid, hp⟩ := h.total i (hopened ▸ hi)
    exact ⟨c, p, hid, (hat c p).mpr hp⟩
  · intro c key hp
    exact h.slot c key ((hat c _).mp hp)

theorem placed_new : (new : HyperPool Ip).Placed where
  fresh c p h := by cases p <;> cases h
  unique c c' p p' h := by cases p <;> cases h
  total i h := by cases h
  slot c key h := by cases h
  nodup key := .nil
  keyed r := trivial

/-! ## What the operations move -/

theorem conn_of_sending {s : HyperPool Ip} {r : ℕ} {route : Route Ip} {key : RouteKey Ip}
    {conn : Conn Ip} (h : s.requests r = .sending route key conn) :
    (s.requests r).conn = some conn := by
  rw [h]
  rfl

theorem conn_of_draining {s : HyperPool Ip} {r : ℕ} {route : Route Ip} {key : RouteKey Ip}
    {conn : Conn Ip} {headers : List HeaderLine}
    (h : s.requests r = .draining route key conn headers) :
    (s.requests r).conn = some conn := by
  rw [h]
  rfl

theorem at_congr {s s' : HyperPool Ip} (hpool : s'.pool = s.pool)
    (hrequests : s'.requests = s.requests) (hclosed : s'.closed = s.closed) (c : Conn Ip)
    (p : Place Ip) : s'.At c p ↔ s.At c p := by
  cases p <;> simp only [At, hpool, hrequests, hclosed]

theorem at_setRequest (s : HyperPool Ip) (r : ℕ) (pc : RequestPc Ip) (c : Conn Ip)
    (p : Place Ip) :
    (s.setRequest r pc).At c p ↔ (p = .used r ∧ pc.conn = some c) ∨ (p ≠ .used r ∧ s.At c p) := by
  cases p with
  | idle key => simp [At, setRequest]
  | closed => simp [At, setRequest]
  | used r' =>
      by_cases hr : r' = r
      · subst hr
        simp [At, setRequest]
      · simp [At, setRequest, hr]

/-- A request that goes on with the connection it has, or has none. -/
theorem at_setRequest_same {s : HyperPool Ip} {r : ℕ} {pc : RequestPc Ip}
    (h : pc.conn = (s.requests r).conn) (c : Conn Ip) (p : Place Ip) :
    (s.setRequest r pc).At c p ↔ s.At c p := by
  rw [at_setRequest]
  by_cases hp : p = .used r
  · subst hp
    simp [At, h]
  · simp [hp]

theorem forall_setRequest {P : RequestPc Ip → Prop} {s : HyperPool Ip}
    (h : ∀ r, P (s.requests r)) {pc : RequestPc Ip} (hpc : P pc) (r q : ℕ) :
    P ((s.setRequest r pc).requests q) := by
  by_cases hq : q = r
  · subst hq
    simpa [setRequest] using hpc
  · simpa [setRequest, Function.update_of_ne hq] using h q

/-- A request ends, and its connection goes to a place that no request is. -/
theorem at_settle {s : HyperPool Ip} (h : s.Placed) {r : ℕ} {conn : Conn Ip}
    (hconn : (s.requests r).conn = some conn) {p : Place Ip} (c : Conn Ip) (q : Place Ip) :
    ((c = conn ∧ q = p) ∨ (s.setRequest r .idle).At c q) ↔
      (c = conn ∧ q = p) ∨ (c ≠ conn ∧ s.At c q) := by
  apply or_congr_right
  rw [at_setRequest]
  constructor
  · rintro (⟨rfl, hnone⟩ | ⟨hq, hat⟩)
    · cases hnone
    · refine ⟨?_, hat⟩
      rintro rfl
      have hused : s.At c (.used r) := hconn
      exact hq (h.place_unique hat hused)
  · rintro ⟨hc, hat⟩
    refine .inr ⟨?_, hat⟩
    rintro rfl
    rw [At, hconn] at hat
    exact hc (Option.some.inj hat).symm

theorem at_drop (s : HyperPool Ip) (conn c : Conn Ip) (p : Place Ip) :
    (s.drop conn).At c p ↔ (c = conn ∧ p = .closed) ∨ s.At c p := by
  cases p <;> simp [At, drop]

theorem at_spoil (s : HyperPool Ip) (conn c : Conn Ip) (p : Place Ip) :
    (s.spoil conn).At c p ↔ s.At c p :=
  at_congr rfl rfl rfl c p

theorem moves_fail {s : HyperPool Ip} (h : s.Placed) {r : ℕ} {conn : Conn Ip}
    (hconn : (s.requests r).conn = some conn) : Moves lib cfg s (s.fail r conn) conn .closed where
  at_iff c q := by
    rw [fail, at_drop, at_spoil]
    exact at_settle h hconn c q
  origin := .inl ⟨rfl, .used r, hconn⟩
  slot := nofun

/-- The state in which the connection of a finished request is settled. -/
theorem at_finished {s t : HyperPool Ip} {r : ℕ} {conn : Conn Ip}
    (ht : t = s.setRequest r .idle ∨ t = (s.setRequest r .idle).spoil conn) :
    t.opened = s.opened ∧ ∀ c q, t.At c q ↔ (s.setRequest r .idle).At c q := by
  rcases ht with rfl | rfl
  · exact ⟨rfl, fun _ _ => Iff.rfl⟩
  · exact ⟨rfl, at_spoil _ _⟩

theorem moves_drop {s t : HyperPool Ip} (h : s.Placed) {r : ℕ} {conn : Conn Ip}
    (hconn : (s.requests r).conn = some conn)
    (ht : t = s.setRequest r .idle ∨ t = (s.setRequest r .idle).spoil conn) :
    Moves lib cfg s (t.drop conn) conn .closed where
  at_iff c q := by
    rw [at_drop, (at_finished ht).2]
    exact at_settle h hconn c q
  origin := .inl ⟨(at_finished ht).1, .used r, hconn⟩
  slot := nofun

theorem moves_opened {s : HyperPool Ip} (h : s.Placed) {r : ℕ} {route : Route Ip}
    {key : RouteKey Ip} {answer : Option Ip} {addr : Ip} (hpc : s.requests r = .opening route key)
    (haddr : connectAddress lib cfg (fun _ => answer) route.target = .ok addr) :
    let conn : Conn Ip := ⟨s.opened, key, addr, serverName route⟩
    Moves lib cfg s { s.setRequest r (.sending route key conn) with opened := s.opened + 1 } conn
      (.used r) := by
  intro conn
  refine ⟨fun c q => ?_, .inr ⟨rfl, rfl, r, route, answer, hpc, rfl, haddr⟩, nofun⟩
  refine (at_congr (s := s.setRequest r (.sending route key conn)) rfl rfl rfl c q).trans ?_
  rw [at_setRequest]
  constructor
  · rintro (⟨rfl, hc⟩ | ⟨hq, hat⟩)
    · exact .inl ⟨(Option.some.inj hc).symm, rfl⟩
    · refine .inr ⟨?_, hat⟩
      rintro rfl
      exact absurd (h.fresh conn q hat) (lt_irrefl _)
  · rintro (⟨rfl, rfl⟩ | ⟨hne, hat⟩)
    · exact .inl ⟨rfl, rfl⟩
    · refine .inr ⟨?_, hat⟩
      rintro rfl
      simp [At, hpc, RequestPc.conn, RequestPc.inUse] at hat

variable [DecidableEq Ip]

theorem at_release (s : HyperPool Ip) (key : RouteKey Ip) (conn c : Conn Ip) (p : Place Ip) :
    (s.release key conn).At c p ↔ (c = conn ∧ p = .idle key) ∨ s.At c p := by
  cases p with
  | idle key' =>
      by_cases hkey : key' = key
      · subst hkey
        simp [At, release]
      · simp [At, release, hkey]
  | used r => simp [At, release]
  | closed => simp [At, release]

theorem moves_release {s t : HyperPool Ip} (h : s.Placed) {r : ℕ} {conn : Conn Ip}
    (hconn : (s.requests r).conn = some conn)
    (ht : t = s.setRequest r .idle ∨ t = (s.setRequest r .idle).spoil conn) :
    Moves lib cfg s (t.release conn.key conn) conn (.idle conn.key) where
  at_iff c q := by
    rw [at_release, (at_finished ht).2]
    exact at_settle h hconn c q
  origin := .inl ⟨(at_finished ht).1, .used r, hconn⟩
  slot key hkey := by
    cases hkey
    rfl

theorem moves_hit {s : HyperPool Ip} (h : s.Placed) {r : ℕ} {route : Route Ip}
    {key : RouteKey Ip} {conn : Conn Ip} {rest : List (Conn Ip)}
    (hpc : s.requests r = .routed route key) (hpool : s.pool key = conn :: rest) :
    Moves lib cfg s (setRequest { s with pool := Function.update s.pool key rest } r
      (.sending route key conn)) conn (.used r) where
  at_iff c q := by
    have hidle : s.At conn (.idle key) := by simp [At, hpool]
    have hnodup := h.nodup key
    rw [hpool, List.nodup_cons] at hnodup
    rw [at_setRequest]
    cases q with
    | idle key' =>
        by_cases hk : key' = key
        · subst hk
          simp only [At, hpool, Function.update_self, List.mem_cons]
          constructor
          · rintro (⟨h, -⟩ | ⟨-, hmem⟩)
            · cases h
            · exact .inr ⟨fun hc => hnodup.1 (hc ▸ hmem), .inr hmem⟩
          · rintro (⟨-, h⟩ | ⟨hne, rfl | hmem⟩)
            · cases h
            · exact absurd rfl hne
            · exact .inr ⟨by simp, hmem⟩
        · simp only [At, Function.update_of_ne hk]
          constructor
          · rintro (⟨h, -⟩ | ⟨-, hmem⟩)
            · cases h
            · refine .inr ⟨?_, hmem⟩
              rintro rfl
              have hother : s.At c (.idle key') := hmem
              cases h.place_unique hother hidle
              exact hk rfl
          · rintro (⟨-, h⟩ | ⟨-, hmem⟩)
            · cases h
            · exact .inr ⟨by simp, hmem⟩
    | used r' =>
        by_cases hr : r' = r
        · subst hr
          simp [At, hpc, RequestPc.conn, RequestPc.inUse, eq_comm]
        · simp only [At, Place.used.injEq, hr, false_and, false_or, and_false, ne_eq,
            not_false_eq_true, true_and]
          constructor
          · intro hat
            refine ⟨?_, hat⟩
            rintro rfl
            have hused : s.At c (.used r') := hat
            cases h.place_unique hused hidle
          · exact And.right
    | closed =>
        constructor
        · rintro (⟨h, -⟩ | ⟨-, hmem⟩)
          · cases h
          · refine .inr ⟨?_, hmem⟩
            rintro rfl
            have hclosed : s.At c .closed := hmem
            cases h.place_unique hclosed hidle
        · rintro (⟨-, h⟩ | ⟨-, hmem⟩)
          · cases h
          · exact .inr ⟨by simp, hmem⟩
  origin := .inl ⟨rfl, .idle key, by simp [At, hpool]⟩
  slot := nofun

/-! ## Steps -/

/-- What each event does. -/
inductive Steps (lib : NetLib Ip Net) (cfg : HyperConfig Ip Net) (s : HyperPool Ip) :
    Event Ip → HyperPool Ip → Prop where
  | start (r url route) (hpc : s.requests r = .idle)
        (hroute : Route.ofUrl lib cfg url = .ok route) :
      Steps lib cfg s (.start r url)
        { s.setRequest r (.routed route (route.key (nextSourceIp cfg s.localIpIndex).1)) with
          localIpIndex := (nextSourceIp cfg s.localIpIndex).2 }
  | hit (r route key conn rest) (hreuse : cfg.noConnectionReuse = false)
      (hpc : s.requests r = .routed route key) (hpool : s.pool key = conn :: rest) :
      Steps lib cfg s (.acquire r)
        (setRequest { s with pool := Function.update s.pool key rest } r
          (.sending route key conn))
  | miss (r route key) (hpc : s.requests r = .routed route key) :
      Steps lib cfg s (.acquire r) (s.setRequest r (.opening route key))
  | opened (r answer route key addr) (hpc : s.requests r = .opening route key)
      (haddr : connectAddress lib cfg (fun _ => answer) route.target = .ok addr) :
      Steps lib cfg s (.opened r answer)
        { s.setRequest r (.sending route key ⟨s.opened, key, addr, serverName route⟩) with
          opened := s.opened + 1 }
  | unopened (e r route key) (hpc : s.requests r = .opening route key) (he : ¬s.Unheeded cfg e) :
      Steps lib cfg s e (s.setRequest r .idle)
  | failed (e r conn) (hconn : (s.requests r).conn = some conn) (he : ¬s.Unheeded cfg e) :
      Steps lib cfg s e (s.fail r conn)
  | respond (r route key conn headers) (hpc : s.requests r = .sending route key conn) :
      Steps lib cfg s (.respond r headers) (s.setRequest r (.draining route key conn headers))
  | drained (r route key conn headers) (hpc : s.requests r = .draining route key conn headers) :
      Steps lib cfg s (.drained r) (finish cfg s r key conn headers)

theorem steps_of_acquire {s s' : HyperPool Ip} {r : ℕ}
    (h : step lib cfg s (.acquire r) = some s') : Steps lib cfg s (.acquire r) s' := by
  simp only [step] at h
  split at h
  · rename_i route key hpc
    split at h
    · cases h
      exact .miss r route key hpc
    · rename_i hreuse
      rw [tryAcquire] at h
      cases hpool : s.pool key with
      | nil =>
          rw [hpool] at h
          cases h
          exact .miss r route key hpc
      | cons conn rest =>
          rw [hpool] at h
          cases h
          exact .hit r route key conn rest (by simpa using hreuse) hpc hpool
  · cases h

theorem steps_of_step {s s' : HyperPool Ip} {e : Event Ip} (h : step lib cfg s e = some s') :
    Steps lib cfg s e s' := by
  cases e with
  | start r url =>
      simp only [step] at h
      split at h
      · rename_i route hpc hroute
        cases h
        exact .start r url route hpc hroute
      · cases h
  | acquire r => exact steps_of_acquire h
  | opened r answer =>
      simp only [step] at h
      split at h
      · rename_i route key hpc
        split at h
        · cases h
        · rename_i addr haddr
          cases h
          exact .opened r answer route key addr hpc haddr
      · cases h
  | openFailed r =>
      simp only [step] at h
      split at h <;> cases h
      exact .unopened _ r _ _ ‹_› id
  | sendFailed r =>
      simp only [step] at h
      split at h <;> cases h
      exact .failed _ r _ (conn_of_sending ‹_›) id
  | respond r headers =>
      simp only [step] at h
      split at h <;> cases h
      exact .respond r _ _ _ headers ‹_›
  | drainFailed r =>
      simp only [step] at h
      split at h <;> cases h
      exact .failed _ r _ (conn_of_draining ‹_›) id
  | drained r =>
      simp only [step] at h
      split at h <;> cases h
      exact .drained r _ _ _ _ ‹_›
  | abort r =>
      simp only [step] at h
      split at h
      · cases h
        exact .unopened _ r _ _ ‹_› id
      · cases h
        exact .failed _ r _ (conn_of_sending ‹_›) id
      · cases h
        exact .failed _ r _ (conn_of_draining ‹_›) id
      · cases h

theorem finish_cases (cfg : HyperConfig Ip Net) (s : HyperPool Ip) (r : ℕ) (key : RouteKey Ip)
    (conn : Conn Ip) (headers : List HeaderLine) :
    ((cfg.noConnectionReuse = true ∨
        connectionCloseRequested (headers.map HeaderLine.kept) = true) ∧
      ∃ t, (t = s.setRequest r .idle ∨ t = (s.setRequest r .idle).spoil conn) ∧
        finish cfg s r key conn headers = t.drop conn) ∨
    (cfg.noConnectionReuse = false ∧
      connectionCloseRequested (headers.map HeaderLine.kept) = false ∧
      finish cfg s r key conn headers =
        (if headers.any HeaderLine.asksClose then (s.setRequest r .idle).spoil conn
          else s.setRequest r .idle).release key conn) := by
  simp only [finish]
  by_cases hclose : (cfg.noConnectionReuse ||
      connectionCloseRequested (headers.map HeaderLine.kept)) = true
  · refine .inl ⟨Bool.or_eq_true_iff.mp hclose, ?_⟩
    rw [if_pos hclose]
    split
    · exact ⟨_, .inr rfl, rfl⟩
    · exact ⟨_, .inl rfl, rfl⟩
  · refine .inr ?_
    rw [if_neg hclose]
    simp only [Bool.or_eq_true, not_or, Bool.not_eq_true] at hclose
    refine ⟨hclose.1, hclose.2, ?_⟩
    rw [hclose.1, Bool.false_or]

theorem requests_finish (cfg : HyperConfig Ip Net) (s : HyperPool Ip) (r : ℕ) (key : RouteKey Ip)
    (conn : Conn Ip) (headers : List HeaderLine) :
    (finish cfg s r key conn headers).requests = (s.setRequest r .idle).requests := by
  rcases finish_cases cfg s r key conn headers with ⟨-, t, rfl | rfl, heq⟩ | ⟨-, -, heq⟩
  · rw [heq]
    rfl
  · rw [heq]
    rfl
  · rw [heq]
    split <;> rfl

/-- Every step moves at most one connection. -/
theorem moved_of_steps {s s' : HyperPool Ip} {e : Event Ip} (h : s.Placed)
    (hs : Steps lib cfg s e s') :
    (s'.opened = s.opened ∧ ∀ c q, s'.At c q ↔ s.At c q) ∨
      ∃ conn p, Moves lib cfg s s' conn p := by
  cases hs with
  | start r url route hpc hroute =>
      refine .inl ⟨rfl, fun c q => ?_⟩
      let key := route.key (nextSourceIp cfg s.localIpIndex).1
      exact (at_congr (s := s.setRequest r (.routed route key)) rfl rfl rfl c q).trans
        (at_setRequest_same (by rw [hpc]; rfl) c q)
  | hit r route key conn rest hreuse hpc hpool => exact .inr ⟨_, _, moves_hit h hpc hpool⟩
  | miss r route key hpc => exact .inl ⟨rfl, at_setRequest_same (by rw [hpc]; rfl)⟩
  | opened r answer route key addr hpc haddr => exact .inr ⟨_, _, moves_opened h hpc haddr⟩
  | unopened _ r route key hpc he => exact .inl ⟨rfl, at_setRequest_same (by rw [hpc]; rfl)⟩
  | failed _ r conn hconn he => exact .inr ⟨_, _, moves_fail h hconn⟩
  | respond r route key conn headers hpc =>
      exact .inl ⟨rfl, at_setRequest_same (by rw [hpc]; rfl)⟩
  | drained r route key conn headers hpc =>
      have hconn := conn_of_draining hpc
      obtain rfl := h.key_eq hpc
      rcases finish_cases cfg s r conn.key conn headers with ⟨-, t, ht, heq⟩ | ⟨-, -, heq⟩
      · exact .inr ⟨conn, .closed, heq ▸ moves_drop h hconn ht⟩
      · refine .inr ⟨conn, .idle conn.key, heq ▸ moves_release h hconn ?_⟩
        split
        · exact .inr rfl
        · exact .inl rfl

theorem nodup_of_steps {s s' : HyperPool Ip} {e : Event Ip} (h : s.Placed)
    (hs : Steps lib cfg s e s') (key : RouteKey Ip) : (s'.pool key).Nodup := by
  cases hs with
  | start => exact h.nodup key
  | hit r route key' conn rest hreuse hpc hpool =>
      have hnodup := h.nodup key
      by_cases hk : key = key'
      · subst hk
        rw [hpool] at hnodup
        simpa [setRequest] using hnodup.of_cons
      · simpa [setRequest, Function.update_of_ne hk] using hnodup
  | miss => exact h.nodup key
  | opened => exact h.nodup key
  | unopened => exact h.nodup key
  | failed => exact h.nodup key
  | respond => exact h.nodup key
  | drained r route key' conn headers hpc =>
      rcases finish_cases cfg s r key' conn headers with ⟨-, t, rfl | rfl, heq⟩ | ⟨-, -, heq⟩
      · exact heq ▸ h.nodup key
      · exact heq ▸ h.nodup key
      · rw [heq]
        have hnew := h.not_mem_pool (conn_of_draining hpc) key
        by_cases hk : key = key'
        · subst hk
          split <;> simp [release, spoil, setRequest, hnew, h.nodup key]
        · split <;> simp [release, spoil, setRequest, Function.update_of_ne hk, h.nodup key]

theorem keyed_of_steps {s s' : HyperPool Ip} {e : Event Ip} (h : s.Placed)
    (hs : Steps lib cfg s e s') (q : ℕ) : Keyed (s'.requests q) := by
  cases hs with
  | start r => exact forall_setRequest h.keyed (by trivial) r q
  | hit r route key conn rest hreuse hpc hpool =>
      have hkey : conn.key = key := h.slot conn key (by simp [At, hpool])
      exact forall_setRequest (s := { s with pool := Function.update s.pool key rest }) h.keyed
        (by exact hkey) r q
  | miss r => exact forall_setRequest h.keyed (by trivial) r q
  | opened r => exact forall_setRequest h.keyed (by exact rfl) r q
  | unopened _ r => exact forall_setRequest h.keyed (by trivial) r q
  | failed _ r => exact forall_setRequest h.keyed (by trivial) r q
  | respond r route key conn headers hpc =>
      have hkey := h.keyed r
      rw [hpc] at hkey
      exact forall_setRequest h.keyed (by exact hkey) r q
  | drained r route key conn headers hpc =>
      rw [requests_finish]
      exact forall_setRequest h.keyed (by trivial) r q

theorem Placed.step {s s' : HyperPool Ip} {e : Event Ip} (h : s.Placed)
    (hs : Steps lib cfg s e s') : s'.Placed := by
  rcases moved_of_steps h hs with ⟨hopened, hat⟩ | ⟨conn, p, hmoves⟩
  · exact h.stays hat hopened (nodup_of_steps h hs) (keyed_of_steps h hs)
  · exact h.moves hmoves (nodup_of_steps h hs) (keyed_of_steps h hs)

theorem placed_of_run {es : List (Event Ip)} {s : HyperPool Ip}
    (h : (hyperSystem lib cfg).AnyRun es s) : s.Placed :=
  h.invariant (I := Placed) (fun _ hs => hs ▸ placed_new) fun _ _ _ hp _ hs =>
    hp.step (steps_of_step hs)

end HyperPool

end K6Rs
