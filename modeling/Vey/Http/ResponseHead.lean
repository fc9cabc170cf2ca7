import Vey.Schemes.LineLoop
import Vey.Http.ProxyRequest

/-! The head of a response from the origin: `HttpForwardRemoteResponse` of `vey_http::client`.

        status line -> header line -> ... -> header line -> blank line
             |              |                                   |
        buildFromStatusLine handleHeader                 postCheckAndFix

    Unlike a request, a response may have a coding that is not chunked, or no length at all; its
    body then ends with the connection. -/

namespace Vey.Http
open Schemes Vey.Types

structure HttpStatusLine where
  version : Nat
  code : Nat
  reason : Bytes

namespace HttpStatusLine

def parseVersion (b : Bytes) : Option Nat :=
  if b = ascii "HTTP/1.0" then some 0
  else if b = ascii "HTTP/1.1" then some 1
  else if b = ascii "HTTP/2.0" ∨ b = ascii "HTTP/2" then some 2
  else none

def parse [AtoiRadix10] (buf : Bytes) : Except HttpLineParseError HttpStatusLine :=
  if buf.length < 13 then .error .notLongEnough
  else
    match memchr 32 buf with
    | none => .error (.noDelimiterFound ' ')
    | some p =>
      match parseVersion (buf.take p) with
      | none => .error .invalidVersion
      | some version =>
        let left := buf.drop (p + 1)
        match fromRadix10Checked 16 left with
        | (none, _) => .error .invalidStatusCode
        | (some code, len) =>
          if len < 3 then .error .invalidStatusCode
          else if left.length < len + 1 then .error .notLongEnough
          else if validUtf8 (left.drop (len + 1)) = false then .error .invalidUtf8Encoding
          else .ok ⟨version, code, trim (left.drop (len + 1))⟩

end HttpStatusLine

inductive HttpResponseParseError where
  | remoteClosed
  | tooLargeHeader (max : Nat)
  | invalidVersion (version : Nat)
  | invalidStatusLine (e : HttpLineParseError)
  | invalidHeaderLine (e : HttpLineParseError)
  | invalidTransferEncoding (e : InvalidTransferEncodingValue)
  | invalidContentLength
  | ioFailed (e : IoError)

structure HttpForwardRemoteResponse where
  version : Version
  code : Nat
  reason : Bytes
  endToEndHeaders : H1HeaderMap := []
  hopByHopHeaders : H1HeaderMap := []
  originalConnectionName : HttpKnownHeaderName := {}
  connection : ConnectionValue := {}
  originHeaderSize : Nat := 0
  keepAlive : Bool := false
  contentLength : UInt64 := 0
  transferEncoding : TransferEncodingValue := {}
  originalTransferEncodingName : HttpKnownHeaderName := {}
  hasContentLength : Bool := false
  wwwNegotiateAuth : Bool := false
  supportSessionBasedAuth : Bool := false

namespace HttpForwardRemoteResponse

/-- What reading a part of a response comes to. -/
abbrev Result := Except HttpResponseParseError HttpForwardRemoteResponse

variable [HttpTypes]

def new (version : Version) (code : Nat) (reason : Bytes) : HttpForwardRemoteResponse :=
  { version, code, reason }

variable (r : HttpForwardRemoteResponse) (method : Method)

def expectNoBody : Bool :=
  r.code < 200 || r.code == 204 || r.code == 304 || method.text == ascii "HEAD"

def bodyType : Option HttpBodyType :=
  if r.expectNoBody method then none
  else if r.transferEncoding.chunked then some .chunked
  else if r.originalTransferEncodingName.isReceived then some .readUntilEnd
  else if r.hasContentLength then
    if 0 < r.contentLength then some (.contentLength r.contentLength) else none
  else some .readUntilEnd

def buildFromStatusLine [AtoiRadix10] (lineBuf : Bytes) : Result :=
  match HttpStatusLine.parse lineBuf with
  | .error e => .error (.invalidStatusLine e)
  | .ok rsp =>
    match rsp.version with
    | 0 => .ok (.new .http10 rsp.code rsp.reason)
    | 1 => .ok (.new .http11 rsp.code rsp.reason)
    | v => .error (.invalidVersion v) -- the line parser knows no version but 2 beside these

/-! ### Header lines -/

def insertHopByHopHeader (name : Bytes) (header : HttpHeaderLine) : Result :=
  match H1HeaderValue.fromStr header.value with
  | none => .error (.invalidHeaderLine .invalidHeaderValue)
  | some v =>
    .ok { r with hopByHopHeaders := r.hopByHopHeaders.append name (v.setOriginalName header.name) }

/-- The end of `handle_header`. -/
def appendHeader (name : Bytes) (header : HttpHeaderLine) : Result :=
  match H1HeaderValue.fromStr header.value with
  | none => .error (.invalidHeaderLine .invalidHeaderValue)
  | some v =>
    .ok { r with endToEndHeaders := r.endToEndHeaders.append name (v.setOriginalName header.name) }

variable (header : HttpHeaderLine)

def receiveConnection : HttpForwardRemoteResponse :=
  { r with
    connection := r.connection.parse header.value
    originalConnectionName := r.originalConnectionName.receive connectionName header.name }

/-- A content length received before is dropped. -/
def receiveTransferEncoding : Result :=
  let name := r.originalTransferEncodingName.receive transferEncodingName header.name
  let r := { r with originalTransferEncodingName := name }
  let r :=
    if r.hasContentLength then
      { r with endToEndHeaders := r.endToEndHeaders.remove contentLengthKey, contentLength := 0 }
    else r
  match r.transferEncoding.parse header.value with
  | .error e => .error (.invalidTransferEncoding e)
  | .ok transferEncoding => .ok { r with transferEncoding }

def receiveContentLength (name : Bytes) (header : HttpHeaderLine) : Result :=
  if r.originalTransferEncodingName.isReceived then .ok { r with hasContentLength := true }
  else
    match parseU64 header.value with
    | none => .error .invalidContentLength
    | some contentLength =>
      if r.hasContentLength ∧ r.contentLength ≠ contentLength then .error .invalidContentLength
      else { r with hasContentLength := true, contentLength }.appendHeader name header

def receiveProxySupport : HttpForwardRemoteResponse :=
  if toLowercase header.value = ascii "session-based-authentication" then
    { r with supportSessionBasedAuth := true }
  else r

def handleHeader : Result :=
  match headerName header.name with
  | none => .error (.invalidHeaderLine .invalidHeaderName)
  | some name =>
    if name = ascii "connection" ∨ name = ascii "proxy-connection" then
      .ok (r.receiveConnection header)
    else if name = ascii "upgrade" then r.insertHopByHopHeader name header
    else if name = ascii "keep-alive" then
      .ok { r with connection := r.connection.parseKeepAlive header.name header.value }
    else if name = transferEncodingKey then r.receiveTransferEncoding header
    else if name = contentLengthKey then r.receiveContentLength name header
    else if name = ascii "www-authenticate" ∧ isSessionBased header.value then
      { r with wwwNegotiateAuth := true }.appendHeader name header
    else if name = ascii "proxy-support" then .ok (r.receiveProxySupport header)
    else r.appendHeader name header

def parseHeaderLine (lineBuf : Bytes) : Result :=
  match HttpHeaderLine.parse lineBuf with
  | .error e => .error (.invalidHeaderLine e)
  | .ok header => r.handleHeader header

/-! ### The whole head -/

def postCheckAndFix (requestKeepAlive : Bool) : HttpForwardRemoteResponse :=
  { r with
    keepAlive :=
      if r.originalTransferEncodingName.isReceived then
        -- both fields, or a coding whose length is the connection
        if r.hasContentLength || !r.transferEncoding.chunked then false
        else r.connection.keepAlive r.version && requestKeepAlive
      else if !r.hasContentLength && !r.expectNoBody method then false
      else r.connection.keepAlive r.version && requestKeepAlive }

/-- The lines of `parse`; there is no response before the status line. -/
def lineLoop [AtoiRadix10] (keepAlive : Bool) (maxHeaderSize : Nat) :
    LineLoop (Option HttpForwardRemoteResponse) HttpResponseParseError
      HttpForwardRemoteResponse where
  line
    | none, l, _ => (buildFromStatusLine l).map fun r => .inl (some r)
    | some r, l, size =>
      if isBlankLine l then
        .ok (.inr ({ r with originHeaderSize := size }.postCheckAndFix method keepAlive))
      else (r.parseHeaderLine l).map fun r => .inl (some r)
  closed := .remoteClosed
  tooLarge := .tooLargeHeader maxHeaderSize
  ioFailed := .ioFailed

def parse [AtoiRadix10] (keepAlive : Bool) (maxHeaderSize : Nat) :
    Future (LineReader (Option HttpForwardRemoteResponse)) Result :=
  (lineLoop method keepAlive maxHeaderSize).read maxHeaderSize

/-! ### Towards the client -/

def statusLine : Bytes :=
  r.version.text ++ [32] ++ decFmt r.code ++ [32] ++ r.reason

def fields : List Field :=
  RequestHead.mapFields r.endToEndHeaders ++
    (if r.supportSessionBasedAuth then
      [(ascii "Proxy-support", ascii "Session-Based-Authentication")] else []) ++
    RequestHead.mapFields r.hopByHopHeaders ++
    r.transferEncoding.write (r.originalTransferEncodingName.asBytes transferEncodingName) ++
    r.connection.writeForRsp (r.originalConnectionName.asBytes connectionName) r.keepAlive

def serialize : Bytes := writeHead r.statusLine r.fields

end HttpForwardRemoteResponse

end Vey.Http
