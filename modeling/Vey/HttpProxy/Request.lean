import Vey.Http.RequestForwarding
import Vey.Http.BodyFraming

/-! `HttpProxyRequest`: the requests of the `http_proxy` server, and how the forward task relays
    them.

        client --head--> parse --HttpProxyClientRequest--> serialize_for_origin --> origin
               --body--> HttpBodyReader(body_type())    -------------------------->

    The head on the wire announces what the header lines said. The body is relayed by
    `body_type()`, which is `None` while a connection-based authorization is negotiated; the
    announced body then stays with the client's reader, where the next request is parsed. -/

namespace Vey.HttpProxy
open Schemes Vey.Types Http List HttpProxyClientRequest

inductive HttpProxySubProtocol where
  | tcpConnect
  | udpConnect
  | httpForward
  | httpsForward
  | ftpOverHttp

section

variable [HttpTypes]

inductive WellKnownUri where
  | easyProxy (protocol : HttpProxySubProtocol) (addr : UpstreamAddr) (uri : Uri)
  | masqueUdp (addr : UpstreamAddr)
  | unsupported

/-- The parts of a `Uri`, the constructors of addresses and the well-known targets. -/
class ProxyTargets where
  /-- `Uri::scheme` -/
  scheme : Uri → Option Bytes
  /-- `Uri::authority`: its host and its port -/
  authority : Uri → Option (Bytes × Option Nat)
  /-- `UpstreamAddr::from_host_str_and_port` -/
  fromHostStrAndPort : Bytes → Nat → Option UpstreamAddr
  /-- `UpstreamAddr::to_string` -/
  display : UpstreamAddr → Bytes
  /-- `WellKnownUri::parse`, `none` for `Ok(None)` and errors, which are answered alike -/
  wellKnownUri : Uri → Option WellKnownUri
  /-- the address that such a target names is shown in visible characters -/
  display_visible : ∀ {uri uri' protocol addr},
    wellKnownUri uri = some (.easyProxy protocol addr uri') →
    ∀ c ∈ display addr, isValueChar c = true

export ProxyTargets (scheme authority fromHostStrAndPort display wellKnownUri)

/-- Absolute targets, with no well-known ones among them. -/
instance (priority := low) : ProxyTargets where
  scheme uri := (memchr 58 uri.text).map uri.text.take
  authority uri :=
    (memchr 58 uri.text).map fun i => ((uri.text.drop (i + 3)).takeWhile (· ≠ 47), none)
  fromHostStrAndPort host port := some ⟨host, port⟩
  display addr := addr.host
  wellKnownUri _ := none
  display_visible := nofun

variable [ProxyTargets]

def getUpstreamWithDefaultPort (uri : Uri) (defaultPort : Nat) : ParseResult UpstreamAddr :=
  match authority uri with
  | some (host, port) =>
    match fromHostStrAndPort host (port.getD defaultPort) with
    | some addr => .ok addr
    | none => .error .invalidRequestTarget
  | none => .error .invalidRequestTarget

def getUpstreamAndProtocol (uri : Uri) : ParseResult (UpstreamAddr × HttpProxySubProtocol) :=
  let withPort (port : Nat) (protocol : HttpProxySubProtocol) :=
    match getUpstreamWithDefaultPort uri port with
    | .error e => .error e
    | .ok addr => .ok (addr, protocol)
  match scheme uri with
  | some scheme =>
    if scheme = ascii "http" then withPort 80 .httpForward
    else if scheme = ascii "https" then withPort 443 .httpsForward
    else if eqIgnoreCase scheme (ascii "ftp") then withPort 21 .ftpOverHttp
    else .error .unsupportedScheme
  | none => .error .invalidRequestTarget

structure HttpProxyServerConfig where
  reqHdrMaxSize : Nat
  stealForwardedFor : Bool
  localServerNames : List Bytes
  allowCustomHost : Bool
  bodyLineMaxLen : Nat

structure HttpProxyRequest where
  clientProtocol : HttpProxySubProtocol
  inner : HttpProxyClientRequest
  upstream : UpstreamAddr

namespace HttpProxyRequest

/-- The function that `parse` passes for the other header lines. -/
def parseMoreHeader (stealForwardedFor : Bool) : HttpProxyClientRequest.ParseMore :=
  fun req name header =>
    if name = ascii "proxy-authorization" then req.parseHeaderAuthorization header.value
    else if name = ascii "proxy-connection" then req.parseHeaderConnection header
    else if (name = ascii "forwarded" ∨ name = ascii "x-forwarded-for") ∧ stealForwardedFor then
      .ok req
    else req.appendParsedHeader name header

variable (req : HttpProxyClientRequest)

def isLocalRequest (localNames : List Bytes) : Bool :=
  if localNames.isEmpty then (scheme req.head.uri).isNone
  else
    match req.head.host with
    | some addr => localNames.contains addr.host
    | none => false

def setHost (host : UpstreamAddr) : HttpProxyClientRequest :=
  let value : H1HeaderValue := ⟨display host, req.originalHostName.received⟩
  { req with
    head := { req.head with
      endToEndHeaders := req.head.endToEndHeaders.insert (ascii "host") value
      host := some host } }

variable (config : HttpProxyServerConfig)

/-- The upstream of a request; a well-known target also replaces the `Uri` and the host. -/
def resolve (req : HttpProxyClientRequest) : ParseResult HttpProxyRequest :=
  match req.upgradeToken with
  | some .connectUdp =>
    match wellKnownUri req.head.uri with
    | some (.masqueUdp addr) => .ok ⟨.udpConnect, req, addr⟩
    | _ => .error (.unsupportedUri req.head.uri.text)
  | some token => .error (.unsupportedUpgradeToken token)
  | none =>
    if req.isConnect then
      match getUpstreamWithDefaultPort req.head.uri 443 with
      | .error e => .error e
      | .ok addr => .ok ⟨.tcpConnect, req, addr⟩
    else if isLocalRequest req config.localServerNames then
      match wellKnownUri req.head.uri with
      | some (.easyProxy protocol addr uri) =>
        .ok ⟨protocol, setHost { req with head := { req.head with uri } } addr, addr⟩
      | _ => .error (.unsupportedUri req.head.uri.text)
    else
      match getUpstreamAndProtocol req.head.uri with
      | .error e => .error e
      | .ok (addr, protocol) => .ok ⟨protocol, req, addr⟩

/-- The host header must name the upstream, unless the server allows another one. -/
def checkHost (req : HttpProxyRequest) : ParseResult HttpProxyRequest :=
  match req.inner.head.host with
  | some host =>
    if !config.allowCustomHost && host.host != req.upstream.host then
      .error .unmatchedHostAndAuthority
    else .ok req
  | none => .ok req

/-- Whether the reader goes along with the request, or stays for the next one. -/
def sendReader (req : HttpProxyRequest) : Bool :=
  match req.clientProtocol with
  | .httpForward | .httpsForward => !req.inner.pipelineSafe
  | _ => true

/-- `parse`: the request and whether its reader is sent with it; the bytes of the head are kept
    to speak about them. -/
def parse : Future (HeadReader HttpProxyClientRequest)
    (ParseResult (HttpProxyRequest × Bool × Bytes)) :=
  (HttpProxyClientRequest.parse config.reqHdrMaxSize
    (parseMoreHeader config.stealForwardedFor)).andThen fun r =>
    match resolve config r.1 with
    | .error e => .error e
    | .ok req =>
      match checkHost config req with
      | .error e => .error e
      | .ok req => .ok (req, req.sendReader, r.2)

/-! ### What parsing keeps -/

omit [ProxyTargets] in
theorem passesOn_parseMoreHeader (steal : Bool) : PassesOn (parseMoreHeader steal) where
  length := by
    intro req req' header hn h
    unfold parseMoreHeader at h
    rw [if_neg (by decide), if_neg (by decide)] at h
    split at h
    · next hname =>
      rcases hname.1 with hname | hname <;> exact absurd hname (by decide)
    · exact (appendParsedHeader_spec h).1
  quiet := by
    intro req req' name header hn hc hl h
    unfold parseMoreHeader at h
    split at h
    · unfold parseHeaderAuthorization at h
      repeat' split at h
      all_goals cases h
      exact ⟨id, rfl⟩
    split at h
    · next hname =>
      rw [(parseHeaderConnection_spec h).1]
      refine receiveConnection_quiet hn fun hlen => ?_
      -- the name is too long to be taken for `Connection`
      have hsame := congrArg length (HttpHeaders.headerName_lower hn)
      rw [hname, length_map, hlen] at hsame
      exact absurd hsame (by decide)
    split at h
    · cases h
      exact ⟨id, rfl⟩
    · exact appendHeader_quiet hn hc hl (appendParsedHeader_spec h).1
  aside := by
    intro req req' name header h
    unfold parseMoreHeader at h
    split at h
    · unfold parseHeaderAuthorization at h
      repeat' split at h
      all_goals cases h
      exact ⟨rfl, rfl⟩
    split at h
    · exact (parseHeaderConnection_spec h).2
    split at h
    · cases h
      exact ⟨rfl, rfl⟩
    · exact (appendParsedHeader_spec h).2

/-- Another host does not touch the framing. -/
theorem setHost_quiet {host : UpstreamAddr} (hv : ∀ c ∈ display host, isValueChar c = true)
    (hs : Spells req.originalHostName hostName) : Quiet req.head (setHost req host).head := by
  have hvalue : lf ∉ display host := fun h => absurd (hv lf h) (by decide)
  have hkey : (ascii "host").map lower = ascii "host" := by decide
  have hcolon : 58 ∉ ascii "host" := by decide
  have hlf : lf ∉ ascii "host" := by decide
  have hne : ascii "host" ≠ transferEncodingKey := by decide
  have hentry : CleanEntry (ascii "host", ⟨display host, req.originalHostName.received⟩) := by
    cases hr : req.originalHostName.received with
    | none => exact ⟨hkey, ⟨hcolon, hlf, hvalue⟩, hne⟩
    | some n =>
      obtain ⟨hname, hcolon', hlf'⟩ := hs n hr
      exact ⟨hname, ⟨hcolon', hlf', hvalue⟩, hne⟩
  refine ⟨fun hc => ⟨?_, hc.2, hc.3, hc.4, hc.5, hc.6, hc.7⟩, ?_⟩
  · refine forall_mem_append.mpr ⟨?_, forall_mem_singleton.mpr hentry⟩
    exact fun e he => hc.1 e (mem_of_mem_filter he)
  · unfold setHost RequestHead.framing
    rw [valuesOf_insert _ _ (by decide)]

/-- A request that is accepted has the framing of its header lines. -/
theorem parsed_of_completes {config : HttpProxyServerConfig} {s : Source} {req : HttpProxyRequest}
    {send : Bool} {head : Bytes} {t : HeadReader HttpProxyClientRequest}
    (h : (parse config).Completes { reader := s } (.ok (req, send, head)) t) :
    Framed (receivedHeaders head) req.inner.head ∧
      req.inner.authorizationNegotiate = (receivedHeaders head).any (·.negotiates) := by
  obtain ⟨⟨inner, head'⟩, hrun, hres⟩ := Future.andThen_completes h
  obtain ⟨hparsed, -⟩ := parsed_of_accepted
    (passesOn_parseMoreHeader config.stealForwardedFor) (HeadReader.parse_accepts hrun).1
  dsimp only at hres
  split at hres
  · cases hres
  · next r hr =>
    split at hres
    · cases hres
    · next r' hr' =>
      cases hres
      have hsame : req = r := by
        unfold checkHost at hr'
        repeat' split at hr'
        all_goals cases hr'
        all_goals rfl
      rw [hsame]
      have huri : ∀ uri, Quiet inner.head { inner.head with uri } := fun uri =>
        ⟨fun hc => { hc with }, rfl⟩
      unfold resolve at hr
      repeat' split at hr
      all_goals cases hr
      · exact ⟨hparsed.framed, hparsed.negotiate⟩
      · exact ⟨hparsed.framed, hparsed.negotiate⟩
      · next addr uri hwell =>
        refine ⟨hparsed.framed.quiet ((huri uri).trans ?_), hparsed.negotiate⟩
        exact setHost_quiet { inner with head := { inner.head with uri } }
          (ProxyTargets.display_visible hwell) hparsed.host
      · exact ⟨hparsed.framed, hparsed.negotiate⟩

end HttpProxyRequest

end

/-! ### The relay -/

section

variable [HttpTypes] [AtoiRadix16]

/-- `run_without_adaptation` for a request that is sent to the end: the bytes that the upstream
    gets, and the client's stream that is handed back for the next request. -/
inductive Relays (config : HttpProxyServerConfig) (req : HttpProxyClientRequest) (clt : Source) :
    Bytes → Source → Prop where
  | withoutBody : req.bodyType = none → Relays config req clt req.serializeForOrigin clt
  | withBody {bodyType : HttpBodyType} {d : Bytes} {r : HttpBodyReader} :
      req.bodyType = some bodyType →
      Reads HttpBodyReader.pollRead (.new clt bodyType config.bodyLineMaxLen) d r →
      r.finished = true → Relays config req clt (req.serializeForOrigin ++ d) r.stream

/-- The bytes are the whole body that was announced. -/
def IsBody (announced : Option HttpBodyType) (wire : Bytes) : Prop :=
  match announced with
  | none => wire = []
  | some bodyType => ∃ body, bodyType.Whole wire body

/-- However the client's stream goes on, the upstream gets one complete request, and what the
    client sent behind its body is what is left of the stream. -/
def KeepsFraming (config : HttpProxyServerConfig) (req : HttpProxyClientRequest) : Prop :=
  ∀ clt sent left, Relays config req clt sent left →
    ∃ wire, sent = req.serializeForOrigin ++ wire ∧ IsBody (announced (readHead sent)) wire ∧
      wire ++ left.content = clt.content

/-- No header line announces a body. -/
def NoBody (received : List HttpHeaderLine) : Prop :=
  ∀ h ∈ received, h.key ≠ transferEncodingKey ∧
    (h.key = contentLengthKey → parseU64 h.value = some 0)

variable {config : HttpProxyServerConfig} {req : HttpProxyClientRequest}
  {seen : List HttpHeaderLine}

omit [AtoiRadix16] in
theorem checkBodyType_eq_none_iff {r : RequestHead} (h : Framed seen r) :
    r.checkBodyType = none ↔ NoBody seen := by
  have hI := h.framing
  have hnone : r.checkBodyType = none ↔
      r.framing.coding.chunked = false ∧ r.framing.length = 0 := by
    unfold RequestHead.checkBodyType
    rw [show r.framing.coding.chunked = r.transferEncoding.chunked from rfl,
      show r.framing.length = r.contentLength from rfl]
    cases r.transferEncoding.chunked <;> simp [UInt64.pos_iff_ne_zero]
  rw [hnone]
  cases hc : r.framing.coded with
  | true =>
    obtain ⟨h, hseen, hk⟩ := hI.coded.mp hc
    rw [(hI.chunked hc).1]
    exact ⟨fun hn => absurd hn.1 (by simp), fun hn => absurd hk (hn h hseen).1⟩
  | false =>
    obtain ⟨hlens, hvals⟩ := hI.values hc
    have hmem : ∀ h ∈ seen, h.key = contentLengthKey → parseU64 h.value = some r.framing.length :=
      fun h hseen hk => hvals _ (by rw [hlens]; exact mem_map_of_mem (by simp [hseen, hk]))
    constructor
    · rintro ⟨-, hz⟩ h hseen
      refine ⟨fun hk => ?_, fun hk => by rw [hmem h hseen hk, hz]⟩
      rw [hI.coded.mpr ⟨h, hseen, hk⟩] at hc
      cases hc
    · intro hn
      refine ⟨by rw [hI.whenPlain hc], ?_⟩
      cases hs : r.framing.sized with
      | false => exact hI.empty hs
      | true =>
        obtain ⟨h, hseen, hk⟩ := hI.sized.mp hs
        have hz := (hn h hseen).2 hk
        rw [hmem h hseen hk] at hz
        exact Option.some.inj hz

omit [AtoiRadix16] in
/-- `check_body_type()` names no empty body, and none that ends with the stream. -/
theorem checkBodyType_ne {r : RequestHead} {bodyType : HttpBodyType}
    (h : r.checkBodyType = some bodyType) :
    bodyType ≠ .contentLength 0 ∧ bodyType ≠ .readUntilEnd := by
  unfold RequestHead.checkBodyType at h
  repeat' split at h
  all_goals cases h
  · exact ⟨nofun, nofun⟩
  · next hpos =>
    refine ⟨fun he => ?_, nofun⟩
    rw [HttpBodyType.contentLength.inj he] at hpos
    exact absurd hpos (by decide)

/-- A request whose body is relayed as its header lines say keeps its framing. -/
theorem keepsFraming_of_bodyType (h : Framed seen req.head)
    (hbody : req.bodyType = req.head.checkBodyType) : KeepsFraming config req := by
  intro clt sent left hrel
  cases hrel with
  | withoutBody hnone =>
    refine ⟨[], by simp, ?_, rfl⟩
    have ha := h.announced_eq []
    rw [append_nil] at ha
    rw [show req.serializeForOrigin = req.head.serializeForOrigin from rfl, ha, ← hbody, hnone]
    rfl
  | @withBody bodyType d r hsome hreads hfin =>
    have hcheck := hbody.symm.trans hsome
    obtain ⟨hlen, hend⟩ := checkBodyType_ne hcheck
    obtain ⟨hwhole, hcont⟩ := HttpBodyReader.whole_of_finished hlen hend hreads hfin
    refine ⟨d, rfl, ?_, hcont⟩
    rw [show req.serializeForOrigin = req.head.serializeForOrigin from rfl, h.announced_eq, hcheck]
    exact hwhole

/-- A head alone is a complete request only when it announces no body. -/
theorem checkBodyType_of_keepsFraming (h : Framed seen req.head) (hnone : req.bodyType = none)
    (hk : KeepsFraming config req) : req.head.checkBodyType = none := by
  obtain ⟨wire, hsent, hwhole, -⟩ := hk ⟨[], [], by decide⟩ _ _ (.withoutBody hnone)
  have hwire : wire = [] := by simpa using hsent
  have ha := h.announced_eq []
  rw [append_nil] at ha
  rw [show req.serializeForOrigin = req.head.serializeForOrigin from rfl, ha, hwire] at hwhole
  cases hc : req.head.checkBodyType with
  | none => rfl
  | some bodyType =>
    obtain ⟨hlen, -⟩ := checkBodyType_ne hc
    rw [hc] at hwhole
    obtain ⟨body, hb⟩ := hwhole
    cases bodyType with
    | readUntilEnd => exact hb.elim
    | contentLength n =>
      obtain ⟨rfl, hn⟩ := hb
      have hz : n = 0 := UInt64.toNat_inj.mp hn.symm
      exact absurd (by rw [hz]) hlen
    | chunked => cases hb

/-- While a connection-based authorization is negotiated, an accepted request keeps its framing
    exactly when its header lines announce no body. -/
theorem keepsFraming_negotiate_iff [ProxyTargets] (config : HttpProxyServerConfig) (s : Source)
    (req : HttpProxyRequest) (send : Bool) (head : Bytes) (t : HeadReader HttpProxyClientRequest)
    (h : (HttpProxyRequest.parse config).Completes { reader := s } (.ok (req, send, head)) t)
    (hneg : ∃ l ∈ receivedHeaders head, l.negotiates = true) :
    KeepsFraming config req.inner ↔ NoBody (receivedHeaders head) := by
  obtain ⟨hframed, hauth⟩ := HttpProxyRequest.parsed_of_completes h
  have hnone : req.inner.bodyType = none := by
    unfold bodyType
    rw [hauth, if_pos (any_eq_true.mpr hneg)]
  rw [← checkBodyType_eq_none_iff hframed]
  refine ⟨checkBodyType_of_keepsFraming hframed hnone, fun hc => ?_⟩
  exact keepsFraming_of_bodyType hframed (hnone.trans hc.symm)

end

def plainConfig : HttpProxyServerConfig := ⟨4096, false, [], true, 1024⟩

/-- A negotiation without a body. -/
theorem keepsFraming_negotiate_empty :
    let head := ascii
      "GET http://a/x HTTP/1.1\r\nAuthorization: Negotiate YII\r\nContent-Length: 0\r\n\r\n"
    ∃ req send t, (HttpProxyRequest.parse plainConfig).Completes
        { reader := ⟨head, [], by decide⟩ } (.ok (req, send, head)) t ∧
      KeepsFraming plainConfig req.inner := by
  intro head
  have hrun := Future.drive_completes (F := HttpProxyRequest.parse plainConfig) (n := 4)
    (s := { reader := ⟨head, [], by decide⟩ }) .start rfl
  refine ⟨_, _, _, hrun, ?_⟩
  refine (keepsFraming_negotiate_iff plainConfig _ _ _ _ _ hrun (by decide)).mpr ?_
  unfold NoBody
  decide

/-- A negotiation with a body of five bytes: the upstream is told of them and does not get them. -/
theorem not_keepsFraming_negotiate_body :
    let head := ascii
      "POST http://a/x HTTP/1.1\r\nAuthorization: NTLM TlR\r\nContent-Length: 5\r\n\r\n"
    ∃ req send t, (HttpProxyRequest.parse plainConfig).Completes
        { reader := ⟨head ++ ascii "hello", [], by decide⟩ } (.ok (req, send, head)) t ∧
      ¬ KeepsFraming plainConfig req.inner := by
  intro head
  have hrun := Future.drive_completes (F := HttpProxyRequest.parse plainConfig) (n := 4)
    (s := { reader := ⟨head ++ ascii "hello", [], by decide⟩ }) .start rfl
  refine ⟨_, _, _, hrun, fun hk => ?_⟩
  have hframed := (HttpProxyRequest.parsed_of_completes hrun).1
  have hnone := checkBodyType_of_keepsFraming hframed (by decide) hk
  revert hnone
  decide

end Vey.HttpProxy
