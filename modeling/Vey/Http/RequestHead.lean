import Vey.Schemes.Lines
import Vey.Http.BodyReader
import Vey.Http.HeaderLine

/-! What the two HTTP/1 request types of `vey_http::server` have in common.

    `HttpTransparentRequest` and `HttpProxyClientRequest` keep the same head, read it off the
    stream by the same loop and write it by the same code; `RequestHead` has the fields that both
    have, `HeadReader` is the loop.

        method line -> header line -> ... -> header line -> blank line
             |              |                                   |
        buildFromMethodLine handleHeader                 postCheckAndFix -/

namespace Vey.Http
open Schemes Vey.Types List

inductive HttpRequestParseError where
  | clientClosed
  | tooLargeHeader (max : Nat)
  | invalidMethodLine (e : HttpLineParseError)
  | unsupportedMethod (method : Bytes)
  | unsupportedVersion (version : Nat)
  | unsupportedUri (uri : Bytes)
  | invalidRequestTarget
  | unsupportedScheme
  | invalidHeaderLine (e : HttpLineParseError)
  | invalidHost
  | unsupportedAuthorization
  | unmatchedHostAndAuthority
  | invalidTransferEncoding (e : InvalidTransferEncodingValue)
  | invalidAcceptTransferEncoding (e : InvalidAcceptTransferEncodingValue)
  | notChunkedTransferEncoding
  | unsupportedTransferEncoding
  | invalidContentLength
  | invalidUpgradeRequest
  | unsupportedUpgradeToken (token : HttpUpgradeToken)
  | ioFailed (e : IoError)
  deriving DecidableEq

/-- What reading a part of a request comes to. -/
abbrev ParseResult := Except HttpRequestParseError

/-- The path of an absolute target, or the target itself. -/
def originForm (uri : Bytes) : Option Bytes :=
  match memchr 58 uri with
  | some i =>
    match memchr 47 (uri.drop (i + 3)) with
    | some j => some (uri.drop (i + 3 + j))
    | none => some [47]
  | none => if uri.head? = some 47 then some uri else none

/-- The host stands for its text; the port may be 0. -/
structure UpstreamAddr where
  host : Bytes
  port : Nat
  deriving DecidableEq

/-- `Method` and `Uri` of the `http` crate, given by their texts, and the parser of addresses. -/
class HttpTypes extends HttpHeaders, TextFunctions where
  /-- `Method::from_str` succeeds -/
  isMethod : Bytes → Bool
  isMethod_token : ∀ {m}, isMethod m = true → ∀ c ∈ m, isTokenChar c = true
  /-- `Uri::from_str` succeeds -/
  isUri : Bytes → Bool
  /-- `Uri::path_and_query` -/
  pathAndQuery : Bytes → Option Bytes
  pathAndQuery_visible : ∀ {u p}, isUri u = true → pathAndQuery u = some p → ∀ c ∈ p, 33 ≤ c
  /-- `UpstreamAddr::from_str` -/
  upstreamAddr : Bytes → Option UpstreamAddr

export HttpTypes (isMethod isUri pathAndQuery upstreamAddr)

/-- Types as the laws describe them: visible characters only. -/
instance (priority := low) : HttpTypes where
  isMethod m := !m.isEmpty && m.all isTokenChar
  isMethod_token h := by simpa using (Bool.and_eq_true_iff.mp h).2
  isUri u := !u.isEmpty && u.all (33 ≤ ·)
  pathAndQuery := originForm
  pathAndQuery_visible := by
    intro u p hu hp c hc
    have hall : ∀ b ∈ u, 33 ≤ b := by simpa using (Bool.and_eq_true_iff.mp hu).2
    unfold originForm at hp
    split at hp
    · split at hp
      · simp only [Option.some.injEq] at hp
        exact hall c (List.mem_of_mem_drop (hp ▸ hc))
      · simp only [Option.some.injEq] at hp
        rw [← hp, List.mem_singleton] at hc
        rw [hc]; decide
    · split at hp
      · simp only [Option.some.injEq] at hp
        exact hall c (hp ▸ hc)
      · simp at hp
  upstreamAddr a := some ⟨a.takeWhile (· ≠ 58), 0⟩

section

variable [HttpTypes]

structure Method where
  text : Bytes
  ok : isMethod text = true
  deriving DecidableEq

structure Uri where
  text : Bytes
  ok : isUri text = true
  deriving DecidableEq

/-- What was parsed of a request. -/
structure RequestHead where
  method : Method
  version : Version
  uri : Uri
  endToEndHeaders : H1HeaderMap := []
  hopByHopHeaders : H1HeaderMap := []
  host : Option UpstreamAddr := none
  originalConnectionName : HttpKnownHeaderName := {}
  connection : ConnectionValue := {}
  originHeaderSize : Nat := 0
  keepAlive : Bool := false
  contentLength : UInt64 := 0
  transferEncoding : TransferEncodingValue := {}
  hasContentLength : Bool := false
  expect100Continue : Bool := false
  acceptTransferEncoding : AcceptTransferEncodingValue := {}
  originalTeName : HttpKnownHeaderName := {}
  originalTransferEncodingName : HttpKnownHeaderName := {}
  deriving DecidableEq

/-- The keys of two headers. -/
def contentLengthKey : Bytes := ascii "content-length"
def transferEncodingKey : Bytes := ascii "transfer-encoding"

namespace RequestHead

def new (method : Method) (uri : Uri) (version : Version) : RequestHead :=
  { method, version, uri }

def buildFromMethodLine (lineBuf : Bytes) : ParseResult RequestHead :=
  match HttpMethodLine.parse lineBuf with
  | .error e => .error (.invalidMethodLine e)
  | .ok req =>
    let build (version : Version) : ParseResult RequestHead :=
      if hm : isMethod req.method = true then
        if hu : isUri req.uri = true then .ok (.new ⟨req.method, hm⟩ ⟨req.uri, hu⟩ version)
        else .error .invalidRequestTarget
      else .error (.unsupportedMethod req.method)
    match req.version with
    | 0 => build .http10
    | 1 => build .http11
    | v => .error (.unsupportedVersion v) -- the line parser knows no version but 2 beside these

/-! ### Header lines that both types handle alike -/

variable (r : RequestHead) (header : HttpHeaderLine)

def receiveHost : ParseResult RequestHead :=
  if r.host.isSome then .error .invalidHost
  else if header.value = [] then .ok r
  else
    match upstreamAddr header.value with
    | some host => .ok { r with host := some host }
    | none => .error .invalidHost

def receiveConnection : RequestHead :=
  { r with
    connection := r.connection.parse header.value
    originalConnectionName := r.originalConnectionName.receive connectionName header.name }

def receiveKeepAlive : RequestHead :=
  { r with connection := r.connection.parseKeepAlive header.name header.value }

def receiveTe : ParseResult RequestHead :=
  match r.acceptTransferEncoding.parse header.value with
  | .error e => .error (.invalidAcceptTransferEncoding e)
  | .ok v =>
    .ok { r with
      acceptTransferEncoding := v
      originalTeName := r.originalTeName.receive teName header.name }

/-- Drops the content length received before. -/
def dropContentLength : RequestHead :=
  if r.hasContentLength then
    { r with endToEndHeaders := r.endToEndHeaders.remove contentLengthKey, contentLength := 0 }
  else r

def receiveTransferEncoding : ParseResult RequestHead :=
  let name := r.originalTransferEncodingName.receive transferEncodingName header.name
  let r := { r with originalTransferEncodingName := name }.dropContentLength
  match r.transferEncoding.parse header.value with
  | .error e => .error (.invalidTransferEncoding e)
  | .ok v =>
    if v.bodyCompressed then .error .unsupportedTransferEncoding
    else if v.chunked then .ok { r with transferEncoding := v }
    else .error .notChunkedTransferEncoding

/-- The flag says whether the header goes on to the map. -/
def receiveContentLength : ParseResult (RequestHead × Bool) :=
  if r.originalTransferEncodingName.isReceived then .ok ({ r with hasContentLength := true }, false)
  else
    match parseU64 header.value with
    | none => .error .invalidContentLength
    | some n =>
      if r.hasContentLength ∧ r.contentLength ≠ n then .error .invalidContentLength
      else .ok ({ r with hasContentLength := true, contentLength := n }, true)

def appendHeader (name : Bytes) (header : HttpHeaderLine) : ParseResult RequestHead :=
  match H1HeaderValue.fromStr header.value with
  | none => .error (.invalidHeaderLine .invalidHeaderValue)
  | some v =>
    .ok { r with endToEndHeaders := r.endToEndHeaders.append name (v.setOriginalName header.name) }

def insertHopByHopHeader (name : Bytes) (header : HttpHeaderLine) : ParseResult RequestHead :=
  match H1HeaderValue.fromStr header.value with
  | none => .error (.invalidHeaderLine .invalidHeaderValue)
  | some v =>
    .ok { r with hopByHopHeaders := r.hopByHopHeaders.append name (v.setOriginalName header.name) }

/-! ### After the blank line -/

/-- The end of `post_check_and_fix`: according to rfc9112 Section 6.1, a request with both fields
    is the last one. -/
def fixKeepAlive : RequestHead :=
  { r with
    keepAlive :=
      if r.originalTransferEncodingName.isReceived && r.hasContentLength then false
      else r.connection.keepAlive r.version }

/-- Chunked wins over a length. -/
def checkBodyType : Option HttpBodyType :=
  if r.transferEncoding.chunked then some .chunked
  else if 0 < r.contentLength then some (.contentLength r.contentLength)
  else none

/-- The fields of a map as they are written. -/
def mapFields (m : H1HeaderMap) : List Field :=
  m.map fun e => (e.2.originalName.getD e.1, e.2.inner)

def requestLine : Bytes :=
  match pathAndQuery r.uri.text with
  | some pa => r.method.text ++ [32] ++ pa ++ [32] ++ r.version.text
  | none =>
    if r.method.text = ascii "OPTIONS" then ascii "OPTIONS * " ++ r.version.text
    else r.method.text ++ ascii " / " ++ r.version.text

def originFields : List Field :=
  let te := r.originalTeName.asBytes teName
  mapFields r.endToEndHeaders ++ mapFields r.hopByHopHeaders ++
    r.transferEncoding.writeChunked
      (r.originalTransferEncodingName.asBytes transferEncodingName) ++
    r.acceptTransferEncoding.writeTrailers te ++
    r.connection.writeForReq (r.originalConnectionName.asBytes connectionName) r.keepAlive
      (if r.acceptTransferEncoding.trailers then some te else none)

def serializeForOrigin : Bytes := writeHead r.requestLine r.originFields

end RequestHead

end

/-! ### Reading a head off the stream -/

/-- The functions in which the two types differ. -/
structure RequestType (ρ : Type) where
  buildFromMethodLine : Bytes → ParseResult ρ
  parseHeaderLine : ρ → Bytes → ParseResult ρ
  /-- with the size of the head -/
  postCheckAndFix : ρ → Nat → ParseResult ρ

/-- `parse` between two polls: the lines that are read, the part of the next line that is there,
    and the request, absent until the method line is read. -/
structure HeadReader (ρ : Type) where
  reader : Source
  headBytes : Bytes := []
  line : Bytes := []
  req : Option ρ := none

namespace HeadReader

variable {ρ : Type}

abbrev Step (ρ : Type) := Ctrl (HeadReader ρ) (Poll (ParseResult (ρ × Bytes)))

def fail (h : HeadReader ρ) (e : HttpRequestParseError) : Step ρ := .ret (.ready (.error e)) h

/-- Behind a line: the size check at the top of the loop. -/
def advance (max : Nat) (h : HeadReader ρ) (req : ρ) : Step ρ :=
  let h := { h with headBytes := h.headBytes ++ h.line, line := [], req := some req }
  if max ≤ h.headBytes.length then h.fail (.tooLargeHeader max) else .next h

variable (k : RequestType ρ)

def lineFound (max : Nat) (h : HeadReader ρ) : Step ρ :=
  match h.req with
  | none =>
    match k.buildFromMethodLine h.line with
    | .error e => h.fail e
    | .ok req => h.advance max req
  | some req =>
    if isBlankLine h.line then
      let head := h.headBytes ++ h.line
      match k.postCheckAndFix req head.length with
      | .error e => h.fail e
      | .ok req => .ret (.ready (.ok (req, head))) { h with headBytes := head, line := [] }
    else
      match k.parseHeaderLine req h.line with
      | .error e => h.fail e
      | .ok req => h.advance max req

/-- `limited_read_until` answered that there is no line. -/
def lineNotFound (max : Nat) (h : HeadReader ρ) : Step ρ :=
  if h.line.length = 0 ∨ h.line.length < max - h.headBytes.length then h.fail .clientClosed
  else h.fail (.tooLargeHeader max)

/-- One round of `read_until_internal`, and what `parse` does with its answer. -/
def step (max : Nat) (h : HeadReader ρ) : Step ρ :=
  match h.reader.pollFillBuf with
  | (.pending, s) => .ret .pending { h with reader := s }
  | (.ready (.error e), s) => { h with reader := s }.fail (.ioFailed e)
  | (.ready (.ok available), s) =>
    let limit := max - h.headBytes.length
    match memchr lf available with
    | some i =>
      let h := { h with reader := s.consume (i + 1), line := h.line ++ available.take (i + 1) }
      if limit < h.line.length then h.lineNotFound max else h.lineFound k max
    | none =>
      let used := available.length
      let h := { h with reader := s.consume used, line := h.line ++ available }
      if used = 0 ∨ limit < h.line.length then h.lineNotFound max else .next h

def parse (max : Nat) : Future (HeadReader ρ) (ParseResult (ρ × Bytes)) := ⟨id, step k max⟩

end HeadReader

/-- A method line and header lines that give the request `r`. -/
structure HeadLines {ρ : Type} (k : RequestType ρ) (first : Bytes) (ls : List Bytes) (r : ρ) :
    Prop where
  methodLine : IsLine first
  headerLines : ∀ l ∈ ls, IsLine l ∧ isBlankLine l = false
  parsed : ∃ r₀, k.buildFromMethodLine first = .ok r₀ ∧ ls.foldlM k.parseHeaderLine r₀ = .ok r

/-- A head from its method line to its blank line, and the request that `parse` makes of it. -/
def Accepted {ρ : Type} (k : RequestType ρ) (head : Bytes) (req : ρ) : Prop :=
  ∃ first ls blank r, head = first ++ ls.flatten ++ blank ∧ HeadLines k first ls r ∧
    isBlankLine blank = true ∧ k.postCheckAndFix r head.length = .ok req

namespace HeadReader

variable {ρ : Type} (k : RequestType ρ) {max : Nat} {input : Bytes}

/-- The request between two lines is the one of the lines before. -/
def Parsed (h : HeadReader ρ) : Prop :=
  match h.req with
  | none => h.headBytes = []
  | some r => ∃ first ls, h.headBytes = first ++ ls.flatten ∧ HeadLines k first ls r

/-- What is read so far is a start of the input, with no complete line left over. -/
structure Inv (input : Bytes) (h : HeadReader ρ) : Prop where
  stream : h.headBytes ++ h.line ++ h.reader.content = input
  partLine : lf ∉ h.line
  parsed : h.Parsed k

/-- The head is accepted, and the stream stands right behind it. -/
def Post (input : Bytes) (a : ρ × Bytes) (h : HeadReader ρ) : Prop :=
  Accepted k a.2 a.1 ∧ a.2 ++ h.reader.content = input

variable {k} {Q : ρ × Bytes → HeadReader ρ → Prop} {I : HeadReader ρ → Prop}

theorem fail_ensures
    (h : HeadReader ρ) (e : HttpRequestParseError) : (h.fail e).Ensures I Q := trivial

theorem lineNotFound_ensures (h : HeadReader ρ) : (h.lineNotFound max).Ensures I Q := by
  unfold lineNotFound
  split <;> trivial

variable {h : HeadReader ρ}

theorem advance_ensures {r : ρ}
    (hI : Inv k input { h with headBytes := h.headBytes ++ h.line, line := [], req := some r }) :
    (h.advance max r).Ensures (Inv k input) Q := by
  unfold advance
  dsimp only
  split
  · exact fail_ensures _ _
  · exact hI

/-- A complete line either ends the head or is one line more of it. -/
theorem lineFound_ensures (hline : IsLine h.line)
    (hstream : h.headBytes ++ h.line ++ h.reader.content = input) (hparsed : h.Parsed k) :
    (h.lineFound k max).Ensures (Inv k input) (Post k input) := by
  have hnext : h.headBytes ++ h.line ++ [] ++ h.reader.content = input := by
    rw [append_nil, hstream]
  unfold Parsed at hparsed
  unfold lineFound
  split
  case h_1 hr =>
    rw [hr] at hparsed
    split
    case h_1 => exact fail_ensures _ _
    case h_2 r₀ hb =>
      refine advance_ensures ⟨hnext, not_mem_nil, h.line, [], ?_, hline, nofun, r₀, hb, rfl⟩
      simp [show h.headBytes = [] from hparsed]
  case h_2 r hr =>
    rw [hr] at hparsed
    obtain ⟨first, ls, hhead, hlines⟩ := hparsed
    split
    case isTrue hblank =>
      dsimp only
      split
      case h_1 => exact fail_ensures _ _
      case h_2 req hfix =>
        exact ⟨⟨first, ls, h.line, r, by rw [hhead], hlines, hblank, hfix⟩, hstream⟩
    case isFalse hblank =>
      split
      case h_1 => exact fail_ensures _ _
      case h_2 r' hp =>
        obtain ⟨hfirst, hls, r₀, hb, hfold⟩ := hlines
        refine advance_ensures ⟨hnext, not_mem_nil, first, ls ++ [h.line], ?_, hfirst, ?_, r₀,
          hb, ?_⟩
        · simp [hhead]
        · intro l hl
          rcases mem_append.mp hl with hl | hl
          · exact hls l hl
          · rw [mem_singleton.mp hl]
            exact ⟨hline, Bool.eq_false_iff.mpr hblank⟩
        · have hlast : [h.line].foldlM k.parseHeaderLine r = .ok r' := by simpa using hp
          rw [foldlM_append, hfold]
          exact hlast

theorem step_ensures (hI : Inv k input h) :
    (h.step k max).Ensures (Inv k input) (Post k input) := by
  obtain ⟨hstream, hopen, hparsed⟩ := hI
  unfold step
  split
  case h_1 s hf =>
    have hc := h.reader.pollFillBuf_content
    rw [hf] at hc
    exact ⟨by rw [← hstream, ← hc], hopen, hparsed⟩
  case h_2 => exact fail_ensures _ _
  case h_3 available s hf =>
    obtain ⟨hbuf, hcont, -⟩ := Source.pollFillBuf_ok hf
    dsimp only
    split
    case h_1 i hi =>
      have hsplit := s.consume_content (i + 1)
      rw [hbuf, hcont] at hsplit
      split
      · exact lineNotFound_ensures _
      · refine lineFound_ensures ?_ ?_ hparsed
        · refine ⟨h.line ++ available.take i, ?_, ?_⟩
          · simp [hopen, (memchr_some hi).1]
          · rw [memchr_take hi, append_assoc]
        · rw [← hstream, ← hsplit]; simp
    case h_2 hi =>
      have hsplit := s.consume_content available.length
      rw [hbuf, hcont, take_length] at hsplit
      split
      · exact lineNotFound_ensures _
      · refine ⟨?_, by simp [hopen, memchr_none hi], hparsed⟩
        rw [← hstream, ← hsplit]; simp

/-- Every run that answers with a request has read an accepted head, and nothing behind it. -/
theorem parse_accepts {s : Source} {req : ρ} {head : Bytes} {t : HeadReader ρ}
    (h : (parse k max).Completes { reader := s } (.ok (req, head)) t) :
    Accepted k head req ∧ head ++ t.reader.content = s.content := by
  refine Future.Completes.ensures (I := Inv k s.content) (Q := Post k s.content) id step_ensures ?_ h
  exact ⟨by simp, not_mem_nil, rfl⟩

end HeadReader

end Vey.Http
