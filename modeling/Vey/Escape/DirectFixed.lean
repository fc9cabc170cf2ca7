import Vey.Acl.Network
import Vey.Resolve.HappyEyeballs
import Vey.Socks.Request

/-! `DirectFixedEscaper`: the connect to an upstream, and the filter that every address has to pass.

        Host::Ip(ip)        prepare_connect_socket(ip)
        Host::Domain(d)     resolve d, then for one address after the other
                              prepare_connect_socket(ip)

    The filter looks at the address as it is spelled. An IPv4 address that comes as IPv6, whether
    in a SOCKS5 request, as the host of a URL or in a DNS answer, is not looked up as IPv4. -/

namespace Vey.Escape
open Schemes Vey.Types Net Acl Resolver Resolve Socks List HappyEyeballsResolveJob UpstreamAddr

inductive UnderlyingTcpConnectError where
  | resolveFailed (e : ResolveError)
  | forbiddenAddressFamily
  | forbiddenRemoteAddress
  | setupSocketFailed (e : IoError)
  | connectFailed (e : IoError)
  | timeoutByRule
  | noAddressConnected
  | internalServerError (msg : String)

structure DirectFixedEscaperConfig where
  noIpv4 : Bool := false
  noIpv6 : Bool := false
  resolveStrategy : ResolveStrategy := {}
  firstAddressFamilyCount : Nat := 1

structure DirectFixedEscaper where
  config : DirectFixedEscaperConfig
  egressNetFilter : AclNetworkRule AclAction
  resolverHandle : ResolverHandle
  resolveRedirection : DomainName → Except DomainNameParseError (Option ResolveRedirectionValue)

/-- What the escaper reads of the task and of the world. -/
structure ConnectTask where
  /-- the strategy of the site or the user -/
  overlay : Option ResolveStrategy := none
  /-- the redirections of the site or the user -/
  redirection : DomainName → Except DomainNameParseError (Option ResolveRedirectionValue) :=
    fun _ => .ok none
  maxTries : Nat := 3
  /-- `new_socket_to`, by the number of the call -/
  newSocketTo : Nat → IpAddr → Except IoError Unit := fun _ _ => .ok ()
  shuffle : Shuffle IpAddr := ⟨id, fun _ => .refl _⟩
  first : FirstAnswer := .h1First

/-- A call of `prepare_connect_socket`. -/
structure Call where
  peerIp : IpAddr
  result : Except UnderlyingTcpConnectError Unit

/-- The call passed both checks. -/
def Call.passed (c : Call) : Bool :=
  match c.result with
  | .error .forbiddenAddressFamily => false
  | .error .forbiddenRemoteAddress => false
  | _ => true

namespace DirectFixedEscaper

def handleTcpTargetIpAclAction (action : AclAction) : Except UnderlyingTcpConnectError Unit :=
  let forbid := match action with
    | .permit => false
    | .permitAndLog => false
    | .forbid => true
    | .forbidAndLog => true
  if forbid then .error .forbiddenRemoteAddress else .ok ()

def prepareConnectSocket [IpNetworkTable] (e : DirectFixedEscaper) (t : ConnectTask) (n : Nat)
    (peerIp : IpAddr) :
    Except UnderlyingTcpConnectError Unit := do
  match peerIp with
  | .v4 _ => if e.config.noIpv4 then .error .forbiddenAddressFamily
  | .v6 _ => if e.config.noIpv6 then .error .forbiddenAddressFamily
  handleTcpTargetIpAclAction (e.egressNetFilter.check peerIp).2
  match t.newSocketTo n peerIp with
  | .ok _ => .ok ()
  | .error e => .error (.setupSocketFailed e)

/-- The `n`-th call. -/
def call [IpNetworkTable] (e : DirectFixedEscaper) (t : ConnectTask) (n : Nat) (peerIp : IpAddr) :
    Call :=
  ⟨peerIp, e.prepareConnectSocket t n peerIp⟩

end DirectFixedEscaper

/-! ### Address lists -/

/-- The first loop of `merge_list`. -/
def interleave {α : Type} (id : Nat) (ips : List α) : List α → List α
  | [] => ips
  | ip :: new =>
    if id < ips.length then interleave (id + 2) (ips.insertIdx id ip) new
    else interleave (id + 1) (ips ++ [ip]) new

def mergeList {α : Type} (firstAddressFamilyCount tried : Nat) (ips new : List α)
    (defer : α → Bool) : List α :=
  let ips := interleave (firstAddressFamilyCount - tried) ips new
  if ips.length < 2 then ips
  else ips.filter defer ++ ips.filter fun ip => !defer ip

theorem mem_of_mem_interleave {α : Type} {x : α} {new : List α} :
    ∀ {id : Nat} {ips : List α}, x ∈ interleave id ips new → x ∈ ips ∨ x ∈ new := by
  induction new with
  | nil => exact fun h => .inl h
  | cons ip new ih =>
    intro id ips h
    rw [interleave] at h
    split at h
    next hid =>
      rcases ih h with h | h
      · rcases (mem_insertIdx (Nat.le_of_lt hid)).mp h with h | h
        · exact .inr (h ▸ mem_cons_self)
        · exact .inl h
      · exact .inr (mem_cons_of_mem _ h)
    next =>
      rcases ih h with h | h
      · rcases mem_append.mp h with h | h
        · exact .inl h
        · exact .inr (mem_singleton.mp h ▸ mem_cons_self)
      · exact .inr (mem_cons_of_mem _ h)

theorem mem_of_mem_mergeList {α : Type} {x : α} {count tried : Nat} {ips new : List α}
    {defer : α → Bool} (h : x ∈ mergeList count tried ips new defer) : x ∈ ips ∨ x ∈ new := by
  simp only [mergeList] at h
  split at h
  · exact mem_of_mem_interleave h
  · rcases mem_append.mp h with h | h <;> exact mem_of_mem_interleave (mem_of_mem_filter h)

/-! ### The connect -/

/-- How a connect task ended. -/
inductive Connected where
  | stream (localAddr : Except IoError Unit)
  | failed (e : UnderlyingTcpConnectError)
  | panic
  | cancelled

inductive ConnectEvent where
  /-- one of the running connects is over -/
  | joined (n : Nat) (r : Connected)
  /-- the connection attempt delay has passed -/
  | tick
  /-- the second answer is there -/
  | r2 (defer : IpAddr → Bool)
  /-- the second resolution timeout -/
  | timeout

/-- The end of a connect. -/
abbrev ConnectResult := Except UnderlyingTcpConnectError Unit

/-- The variables of `happy_try_connect`. -/
structure HappyTry where
  resolverJob : HappyEyeballsResolveJob
  ips : List IpAddr
  running : List IpAddr := []
  spawnNewConnection : Bool := true
  skipFirstTick : Bool := true
  resolverR2Done : Bool := false
  tries : Nat := 0
  returnedErr : UnderlyingTcpConnectError := .noAddressConnected
  calls : List Call := []

namespace HappyTry

variable [IpNetworkTable] (e : DirectFixedEscaper) (t : ConnectTask) (s : HappyTry)

/-- The head of the loop: a new connect, if it is time for one. -/
def spawn : HappyTry × Option ConnectResult :=
  match if s.spawnNewConnection then s.ips.getLast? else none with
  | none => (s, none)
  | some ip =>
    let c := e.call t s.tries ip
    let s := { s with ips := s.ips.dropLast, calls := s.calls ++ [c] }
    match c.result with
    | .error err => (s, some (.error err))
    | .ok _ =>
      ({ s with
          running := s.running ++ [ip], spawnNewConnection := false, tries := s.tries + 1 }, none)

/-- A connect task is over. -/
def joinNext : Connected → HappyTry × Option ConnectResult
  | .stream (.ok _) => (s, some (.ok ()))
  | .stream (.error err) => (s, some (.error (.setupSocketFailed err)))
  | .failed err => ({ s with returnedErr := err, spawnNewConnection := true }, none)
  | .panic => (s, some (.error (.internalServerError "connect task panic")))
  | .cancelled => ({ s with spawnNewConnection := true }, none)

/-- The second answer; without one the wait goes on. -/
def getR2 (defer : IpAddr → Bool) : Option (Resolve.Answer × HappyTry) :=
  (s.resolverJob.getR2OrNever fun all =>
    s.resolverJob.strategy.pickManyDeferring t.shuffle all t.maxTries defer).map fun r =>
      (r.1, { s with resolverJob := r.2 })

/-- `merge_ip_list` -/
def mergeIpList (ips2 : List IpAddr) (defer : IpAddr → Bool) : HappyTry :=
  { s with ips := mergeList e.config.firstAddressFamilyCount s.tries s.ips ips2 defer }

/-- The rest of the loop: wait for what happens next. -/
def await (ev : ConnectEvent) : HappyTry × Option ConnectResult :=
  if s.running ≠ [] then
    match ev with
    | .joined n r =>
      if n < s.running.length then joinNext { s with running := s.running.eraseIdx n } r
      else (s, none)
    | .tick =>
      if s.skipFirstTick then ({ s with skipFirstTick := false }, none)
      else ({ s with spawnNewConnection := true }, none)
    | .r2 defer =>
      match s.getR2 t defer with
      | none => (s, none)
      | some (.ok ips2, s) => (mergeIpList e { s with resolverR2Done := true } ips2 defer, none)
      | some (.error _, s) => ({ s with resolverR2Done := true }, none)
    | .timeout => (s, none)
  else if s.resolverR2Done then (s, some (.error s.returnedErr))
  else
    match ev with
    | .r2 defer =>
      match s.getR2 t defer with
      | none => (s, none)
      | some (.ok ips2, s) =>
        (mergeIpList e { s with resolverR2Done := true, spawnNewConnection := true } ips2 defer,
          none)
      | some (.error _, s) => (s, some (.error s.returnedErr))
    | .timeout => (s, some (.error .timeoutByRule))
    | _ => (s, none)

def run : List ConnectEvent → HappyTry → HappyTry × Option ConnectResult
  | [], s => s.spawn e t
  | ev :: evs, s =>
    match s.spawn e t with
    | (s, some r) => (s, some r)
    | (s, none) =>
      match s.await e t ev with
      | (s, some r) => (s, some r)
      | (s, none) => run evs s

end HappyTry

namespace DirectFixedEscaper

variable [IpNetworkTable] (e : DirectFixedEscaper) (t : ConnectTask)

def getResolveStrategy : ResolveStrategy :=
  match t.overlay with
  | some rs => e.config.resolveStrategy.adjustTo rs
  | none => e.config.resolveStrategy

def resolveHappy (domain : DomainName) : Except ResolveError HappyEyeballsResolveJob :=
  let strategy := e.getResolveStrategy t
  match t.redirection domain with
  | .error _ => .error .invalidRedirectionDomain
  | .ok (some v) => HappyEyeballsResolveJob.newRedirected strategy e.resolverHandle domain v
  | .ok none =>
    match e.resolveRedirection domain with
    | .error _ => .error .invalidRedirectionDomain
    | .ok (some v) => HappyEyeballsResolveJob.newRedirected strategy e.resolverHandle domain v
    | .ok none => HappyEyeballsResolveJob.newDyn strategy e.resolverHandle domain

/-- The calls and the result of the connect to one address. -/
def fixedTryConnect (peerIp : IpAddr) : List ConnectEvent → List Call × Option ConnectResult
  | evs =>
    let c := e.call t 0 peerIp
    ([c], match c.result with
      | .error err => some (.error err)
      | .ok _ =>
        match evs with
        | .joined _ (.stream (.ok _)) :: _ => some (.ok ())
        | .joined _ (.stream (.error err)) :: _ => some (.error (.setupSocketFailed err))
        | .joined _ (.failed err) :: _ => some (.error err)
        | _ => none)

/-- The calls and the result of the connect to the addresses of a domain. -/
def happyTryConnect (resolverJob : HappyEyeballsResolveJob) (defer : IpAddr → Bool)
    (evs : List ConnectEvent) : List Call × Option ConnectResult :=
  match resolverJob.getR1OrFirstDone t.first with
  | none => ([], none)
  | some (.error err, _) => ([], some (.error (.resolveFailed err)))
  | some (.ok all, job) =>
    let ips := job.strategy.pickManyDeferring t.shuffle all t.maxTries defer
    let r := HappyTry.run e t evs { resolverJob := job, ips }
    (r.1.calls, r.2)

def tcpConnectTo (upstream : UpstreamAddr) (defer : IpAddr → Bool) (evs : List ConnectEvent) :
    List Call × Option ConnectResult :=
  match upstream.host with
  | .ip ip => e.fixedTryConnect t ip evs
  | .domain d =>
    match e.resolveHappy t d with
    | .error err => ([], some (.error (.resolveFailed err)))
    | .ok job => e.happyTryConnect t job defer evs

/-! ### What the filter passes -/

/-- The family of the address is switched off. -/
def noFamily : IpAddr → Bool
  | .v4 _ => e.config.noIpv4
  | .v6 _ => e.config.noIpv6

/-- The filter forbids the address. -/
def forbids (ip : IpAddr) : Bool := (e.egressNetFilter.check ip).2.forbidEarly

/-- A call passes if neither its family nor its address is forbidden. -/
theorem call_passed (n : Nat) (ip : IpAddr) :
    (e.call t n ip).passed = (!e.noFamily ip && !e.forbids ip) := by
  have hsock : ∀ ip', (⟨ip', do
      handleTcpTargetIpAclAction (e.egressNetFilter.check ip).2
      match t.newSocketTo n ip with
      | .ok _ => .ok ()
      | .error e => .error (.setupSocketFailed e)⟩ : Call).passed = !e.forbids ip := by
    intro ip'
    rw [forbids]
    cases (e.egressNetFilter.check ip).2 <;> cases t.newSocketTo n ip <;> rfl
  cases ip with
  | v4 a =>
    cases hf : e.config.noIpv4 <;> simp [noFamily, call, prepareConnectSocket, hf]
    · exact hsock _
    · rfl
  | v6 a =>
    cases hf : e.config.noIpv6 <;> simp [noFamily, call, prepareConnectSocket, hf]
    · exact hsock _
    · rfl

end DirectFixedEscaper

/-! ### Which addresses are tried -/

namespace HappyTry

variable [IpNetworkTable] {e : DirectFixedEscaper} {t : ConnectTask} {all : List IpAddr}

/-- Every address that was or can be tried is one of `all`. -/
def From (e : DirectFixedEscaper) (t : ConnectTask) (all : List IpAddr) (s : HappyTry) : Prop :=
  s.resolverJob.addrs ⊆ all ∧ s.ips ⊆ all ∧ ∀ c ∈ s.calls, ∃ n, ∃ ip ∈ all, c = e.call t n ip

variable {s : HappyTry}

section

variable (h : From e t all s)

include h

theorem spawn_from : From e t all (s.spawn e t).1 := by
  rw [spawn]
  split
  next => exact h
  next ip hip =>
    have hlast : s.ips.getLast? = some ip := by
      split at hip
      · exact hip
      · cases hip
    have hmem : ip ∈ all := h.2.1 (mem_of_getLast? hlast)
    have hs : ∀ c ∈ s.calls ++ [e.call t s.tries ip], ∃ n, ∃ ip ∈ all, c = e.call t n ip := by
      intro c hc
      rcases mem_append.mp hc with hc | hc
      · exact h.2.2 c hc
      · exact ⟨s.tries, ip, hmem, mem_singleton.mp hc⟩
    have hips : s.ips.dropLast ⊆ all := Subset.trans (dropLast_subset _) h.2.1
    dsimp only
    split <;> exact ⟨h.1, hips, hs⟩

theorem joinNext_from (r : Connected) : From e t all (s.joinNext r).1 := by
  cases r with
  | stream a => cases a <;> exact h
  | failed err => exact h
  | panic => exact h
  | cancelled => exact h

theorem getR2_from {s' : HappyTry} {defer : IpAddr → Bool} {r : Resolve.Answer}
    (hr : s.getR2 t defer = some (r, s')) : From e t all s' ∧ r.addrs ⊆ all := by
  obtain ⟨x, hx, hs'⟩ := Option.map_eq_some_iff.mp hr
  cases hs'
  have hw := getR2OrNever_within
    (fun l _ => ResolveStrategy.mem_of_mem_pickManyDeferring) hx
  exact ⟨⟨Subset.trans hw.2 h.1, h.2⟩, Subset.trans hw.1 h.1⟩

theorem mergeIpList_from {ips2 : List IpAddr} (h2 : ips2 ⊆ all) (defer : IpAddr → Bool) :
    From e t all (mergeIpList e s ips2 defer) := by
  refine ⟨h.1, fun ip hip => ?_, h.2.2⟩
  rcases mem_of_mem_mergeList hip with hip | hip
  · exact h.2.1 hip
  · exact h2 hip

theorem await_from (ev : ConnectEvent) : From e t all (s.await e t ev).1 := by
  rw [await.eq_def]
  split
  · cases ev with
    | joined n r =>
      dsimp only
      split
      · exact joinNext_from (s := { s with running := s.running.eraseIdx n }) h r
      · exact h
    | tick =>
      dsimp only
      split <;> exact h
    | r2 defer =>
      dsimp only
      split
      next => exact h
      next ips2 s' hr =>
        obtain ⟨hs', h2⟩ := getR2_from h hr
        exact mergeIpList_from hs' h2 defer
      next s' hr => exact (getR2_from h hr).1
    | timeout => exact h
  · split
    · exact h
    · cases ev with
      | r2 defer =>
        dsimp only
        split
        next => exact h
        next ips2 s' hr =>
          obtain ⟨hs', h2⟩ := getR2_from h hr
          exact mergeIpList_from hs' h2 defer
        next s' hr => exact (getR2_from h hr).1
      | joined | tick | timeout => exact h

end

theorem run_from (evs : List ConnectEvent) :
    ∀ {s : HappyTry}, From e t all s → From e t all (s.run e t evs).1 := by
  induction evs with
  | nil => exact spawn_from
  | cons ev evs ih =>
    intro s h
    have hspawn := spawn_from h
    rw [run]
    split
    next s1 r hs => rwa [hs] at hspawn
    next s1 hs =>
      rw [hs] at hspawn
      have hawait := await_from hspawn ev
      split
      next s2 r hs2 => rwa [hs2] at hawait
      next s2 hs2 =>
        rw [hs2] at hawait
        exact ih hawait

end HappyTry

namespace DirectFixedEscaper

variable [IpNetworkTable] {e : DirectFixedEscaper} {t : ConnectTask}

/-- The addresses that the upstream can stand for. -/
def candidates (e : DirectFixedEscaper) (t : ConnectTask) : Host → List IpAddr
  | .ip ip => [ip]
  | .domain d =>
    match e.resolveHappy t d with
    | .error _ => []
    | .ok job => job.addrs

/-- Every call is for the literal address or for one of the DNS answers. -/
theorem tcpConnectTo_calls {upstream : UpstreamAddr} {defer : IpAddr → Bool}
    {evs : List ConnectEvent} {c : Call} (hc : c ∈ (e.tcpConnectTo t upstream defer evs).1) :
    ∃ n, ∃ ip ∈ e.candidates t upstream.host, c = e.call t n ip := by
  rw [tcpConnectTo] at hc
  cases hh : upstream.host with
  | ip ip =>
    rw [hh] at hc
    exact ⟨0, ip, mem_singleton_self ip, mem_singleton.mp hc⟩
  | domain d =>
    rw [hh] at hc
    dsimp only at hc
    cases hj : e.resolveHappy t d with
    | error err =>
      rw [hj] at hc
      cases hc
    | ok job =>
      have hcand : e.candidates t (.domain d) = job.addrs := by rw [candidates, hj]
      rw [hj] at hc
      dsimp only at hc
      rw [happyTryConnect] at hc
      split at hc
      next => cases hc
      next => cases hc
      next all job' hr =>
        obtain ⟨hall, hjob⟩ := getR1OrFirstDone_within hr
        rw [hcand]
        refine (HappyTry.run_from evs ⟨hjob, ?_, ?_⟩).2.2 c hc
        · exact fun ip hip => hall (ResolveStrategy.mem_of_mem_pickManyDeferring hip)
        · exact fun c hc => by cases hc

end DirectFixedEscaper

/-! ### The mapped spelling of a forbidden address -/

/-- An upstream address in one of the forms in which a client can give it. -/
inductive ClientRequest where
  | socks5 (client : Client)
  | hostStr (host : Bytes) (port : Nat)
  | upstreamStr (s : Bytes)
  | url (host : Option UrlHost) (port : Option Nat)

theorem ok_of_toOption {ε α : Type} {x : Except ε α} {a : α} (h : x.toOption = some a) :
    x = .ok a := by
  cases x <;> cases h
  rfl

namespace ClientRequest

variable [Idna] [IpText]

/-- The address, if the request is accepted. -/
def upstream : ClientRequest → Option UpstreamAddr
  | .socks5 client => (Socks5Request.recv.run client).toOption.map (·.1.upstream)
  | .hostStr host port => (UpstreamAddr.fromHostStrAndPort host port).toOption
  | .upstreamStr s => (UpstreamAddr.fromStr s).toOption
  | .url host port => (UpstreamAddr.tryFromUrl host port).toOption

/-- The host is written as a text. -/
def isText : ClientRequest → Prop
  | .socks5 client => client.bytes[3]? = some 0x03
  | .hostStr _ _ => True
  | .upstreamStr _ => True
  | .url _ _ => False

theorem upstream_unmapped {req : ClientRequest} {u : UpstreamAddr} (hu : req.upstream = some u)
    (ht : req.isText) : u.host.Unmapped := by
  cases req with
  | socks5 client =>
    obtain ⟨r, hr, rfl⟩ := Option.map_eq_some_iff.mp hu
    exact Socks5Request.recv_domain (ok_of_toOption hr) ht
  | hostStr host port =>
    exact fromHostStrAndPort_unmapped (ok_of_toOption hu)
  | upstreamStr s => exact fromStr_unmapped (ok_of_toOption hu)
  | url host port => cases ht

end ClientRequest

namespace DirectFixedEscaper

variable [Idna] [IpText] [IpNetworkTable]

/-- The request passes the filter with the mapped spelling of the address. -/
def Bypassed (e : DirectFixedEscaper) (a : Ipv4Addr) (req : ClientRequest) : Prop :=
  ∃ u, req.upstream = some u ∧ ∃ t defer evs, ∃ c ∈ (e.tcpConnectTo t u defer evs).1,
    c.peerIp = .v6 (toIpv6Mapped a) ∧ c.passed = true

/-- An IPv6 request of SOCKS5 takes the mapped spelling to the filter. -/
theorem bypassed_of_passes {e : DirectFixedEscaper} {a : Ipv4Addr} (h6 : e.config.noIpv6 = false)
    (ha : e.forbids (.v6 (toIpv6Mapped a)) = false) :
    e.Bypassed a (.socks5 ⟨Socks5Request.mappedRequest a (0, 80), none⟩) := by
  refine ⟨.fromIpAndPort (.v6 (toIpv6Mapped a)) 80, ?_, {}, fun _ => false, [],
    e.call {} 0 (.v6 (toIpv6Mapped a)), mem_singleton_self _, rfl, ?_⟩
  · rw [ClientRequest.upstream, Socks5Request.recv_mapped]
    rfl
  · rw [call_passed, ha, noFamily, h6]
    rfl

/-- An IPv4 address is safe from its mapped spelling exactly if IPv6 is off or the rule set forbids
    that spelling by itself. A host that is written as a text is never the mapped spelling: there
    it can only come from a DNS answer. -/
theorem not_bypassed_iff (e : DirectFixedEscaper) (a : Ipv4Addr) :
    ((∀ req, ¬e.Bypassed a req) ↔
      e.config.noIpv6 = true ∨ e.forbids (.v6 (toIpv6Mapped a)) = true) ∧
    ∀ (req : ClientRequest) (u : UpstreamAddr) (t : ConnectTask) (defer : IpAddr → Bool)
      (evs : List ConnectEvent), req.upstream = some u → req.isText →
      ∀ c ∈ (e.tcpConnectTo t u defer evs).1, c.peerIp = .v6 (toIpv6Mapped a) →
        ∃ d job, u.host = .domain d ∧ e.resolveHappy t d = .ok job ∧ c.peerIp ∈ job.addrs := by
  refine ⟨⟨fun h => ?_, ?_⟩, ?_⟩
  · by_contra hn
    rw [not_or, Bool.not_eq_true, Bool.not_eq_true] at hn
    exact h _ (bypassed_of_passes hn.1 hn.2)
  · rintro h req ⟨u, -, t, defer, evs, c, hc, hip, hpass⟩
    obtain ⟨n, ip, -, rfl⟩ := tcpConnectTo_calls hc
    have hip : ip = .v6 (toIpv6Mapped a) := hip
    rw [call_passed, hip, noFamily] at hpass
    rcases h with h | h <;> simp [h] at hpass
  · intro req u t defer evs hu ht c hc hip
    obtain ⟨n, ip, hmem, rfl⟩ := tcpConnectTo_calls hc
    have hip : ip = .v6 (toIpv6Mapped a) := hip
    cases hh : u.host with
    | ip ip' =>
      rw [hh, candidates, mem_singleton] at hmem
      have hnone := ClientRequest.upstream_unmapped hu ht (toIpv6Mapped a) (by rw [hh, ← hmem, hip])
      rw [toIpv4Mapped_mapped] at hnone
      cases hnone
    | domain d =>
      rw [hh, candidates] at hmem
      cases hj : e.resolveHappy t d with
      | error err => rw [hj] at hmem; cases hmem
      | ok job => rw [hj] at hmem; exact ⟨d, job, rfl, hj, hmem⟩

end DirectFixedEscaper

/-- An escaper that never resolves a name, with a rule set. -/
def literalEscaper (b : AclNetworkRuleBuilder AclAction) : DirectFixedEscaper where
  config := {}
  egressNetFilter := b.build
  resolverHandle := ⟨fun _ => .error .noResolverSet, fun _ => .error .noResolverSet⟩
  resolveRedirection _ := .ok none

/-- With a rule for the mapped addresses nothing passes. -/
theorem not_bypassed_mapped_rule :
    ∀ req, ¬(literalEscaper ((AclNetworkRuleBuilder.newEgress .permit).addNetwork
      (.v6 { base := 0xffff00000000, len := 96 }) .forbid)).Bypassed 0x7f000001 req :=
  (DirectFixedEscaper.not_bypassed_iff _ 0x7f000001).1.mpr (.inr (by decide +kernel))

/-- The default rule set forbids 127.0.0.1 and passes ::ffff:127.0.0.1. -/
theorem bypassed_loopback :
    (literalEscaper (.newEgress .permit)).forbids (.v4 0x7f000001) = true ∧
    (literalEscaper (.newEgress .permit)).Bypassed 0x7f000001
      (.socks5 ⟨[5, 1, 0, 4, 0, 0, 0, 0, 0, 0, 0, 0, 0, 0, 0xff, 0xff, 0x7f, 0, 0, 1, 0, 80],
        none⟩) :=
  ⟨by decide +kernel, DirectFixedEscaper.bypassed_of_passes rfl (by decide +kernel)⟩

end Vey.Escape
