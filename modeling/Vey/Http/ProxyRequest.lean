import Vey.Http.RequestHead

/-! `HttpProxyClientRequest`: the requests of a forward proxy's clients.

    Header lines that end in `parse_more_header` go to a function of the caller; `parse_basic`
    appends them. A request whose `Authorization` is connection based has no body until the
    authorization has succeeded, so `body_type()` answers `None` for it whatever its header says. -/

namespace Vey.Http
open Schemes Vey.Types

variable [HttpTypes]

structure HttpProxyClientRequest where
  head : RequestHead
  authInfo : HttpAuth := .none
  originalHostName : HttpKnownHeaderName := {}
  upgradeToken : Option HttpUpgradeToken := none
  authorizationNegotiate : Bool := false

/-- The value of an `Authorization` header names a connection-based scheme. -/
def isSessionBased (value : Bytes) : Bool :=
  match AuthorizationValueParser.parse value with
  | some auth => auth.scheme.isSessionBased
  | none => false

namespace HttpProxyClientRequest

/-- What a caller of `parse` does with a header line that is passed on to it. -/
abbrev ParseMore :=
  HttpProxyClientRequest → Bytes → HttpHeaderLine →
    ParseResult HttpProxyClientRequest

def buildFromMethodLine (lineBuf : Bytes) : ParseResult HttpProxyClientRequest :=
  match RequestHead.buildFromMethodLine lineBuf with
  | .error e => .error e
  | .ok head => .ok { head }

variable (req : HttpProxyClientRequest)

def parseHeaderAuthorization (value : Bytes) : ParseResult HttpProxyClientRequest :=
  match AuthorizationValueParser.parse value with
  | none => .error .unsupportedAuthorization
  | some parsed =>
    match HttpAuth.fromAuthorization parsed with
    | none => .error .unsupportedAuthorization
    | some authInfo => .ok { req with authInfo }

def parseHeaderConnection (header : HttpHeaderLine) : ParseResult HttpProxyClientRequest :=
  let head := req.head.receiveConnection header
  if head.connection.upgrade ∧ head.method.text ≠ ascii "GET" then .error .invalidUpgradeRequest
  else .ok { req with head }

def appendParsedHeader (name : Bytes) (header : HttpHeaderLine) :
    ParseResult HttpProxyClientRequest :=
  match req.head.appendHeader name header with
  | .error e => .error e
  | .ok head => .ok { req with head }

/-- Only one `Upgrade` header with one token is taken. -/
def receiveUpgrade (name : Bytes) (header : HttpHeaderLine) : ParseResult HttpProxyClientRequest :=
  if req.upgradeToken.isSome then .error .invalidUpgradeRequest
  else
    match HttpUpgradeToken.fromStr header.value with
    | none => .error .invalidUpgradeRequest
    | some token =>
      match req.head.insertHopByHopHeader name header with
      | .error e => .error e
      | .ok head => .ok { req with head, upgradeToken := some token }

variable (parseMoreHeader : ParseMore) (req : HttpProxyClientRequest)

def handleHeader (header : HttpHeaderLine) : ParseResult HttpProxyClientRequest :=
  match headerName header.name with
  | none => .error (.invalidHeaderLine .invalidHeaderName)
  | some name =>
    if name = ascii "host" then
      match req.head.receiveHost header with
      | .error e => .error e
      | .ok head =>
        let originalHostName := req.originalHostName.receive hostName header.name
        parseMoreHeader { req with head, originalHostName } name header
    else if name = ascii "connection" then req.parseHeaderConnection header
    else if name = ascii "keep-alive" then
      .ok { req with head := req.head.receiveKeepAlive header }
    else if name = ascii "te" then
      match req.head.receiveTe header with
      | .error e => .error e
      | .ok head => .ok { req with head }
    else if name = ascii "upgrade" then req.receiveUpgrade name header
    else if name = transferEncodingKey then
      match req.head.receiveTransferEncoding header with
      | .error e => .error e
      | .ok head => .ok { req with head }
    else if name = contentLengthKey then
      match req.head.receiveContentLength header with
      | .error e => .error e
      | .ok (head, false) => .ok { req with head }
      | .ok (head, true) => parseMoreHeader { req with head } name header
    else if name = ascii "expect" ∧ header.value = ascii "100-continue" then
      parseMoreHeader { req with head := { req.head with expect100Continue := true } } name header
    else if name = ascii "authorization" ∧ isSessionBased header.value then
      parseMoreHeader { req with authorizationNegotiate := true } name header
    else parseMoreHeader req name header

def parseHeaderLine (lineBuf : Bytes) : ParseResult HttpProxyClientRequest :=
  match HttpHeaderLine.parse lineBuf with
  | .error e => .error (.invalidHeaderLine e)
  | .ok header => req.handleHeader parseMoreHeader header

/-- `post_check_and_fix`, with the size of the head set before it. -/
def postCheckAndFix (originHeaderSize : Nat) : ParseResult HttpProxyClientRequest :=
  let head := { req.head with originHeaderSize }
  if head.connection.upgrade then
    if head.hasContentLength ∨ head.originalTransferEncodingName.isReceived ∨
        req.upgradeToken.isNone then .error .invalidUpgradeRequest
    else .ok { req with head := head.fixKeepAlive }
  else if req.upgradeToken.isSome then
    let hopByHopHeaders := head.hopByHopHeaders.remove (ascii "upgrade")
    .ok { req with upgradeToken := none, head := { head with hopByHopHeaders }.fixKeepAlive }
  else .ok { req with head := head.fixKeepAlive }

def requestType : RequestType HttpProxyClientRequest where
  buildFromMethodLine := buildFromMethodLine
  parseHeaderLine := parseHeaderLine parseMoreHeader
  postCheckAndFix := postCheckAndFix

/-- `parse`; it keeps the size of the head only, not its bytes. -/
def parse (maxHeaderSize : Nat) (parseMoreHeader : ParseMore) :
    Future (HeadReader HttpProxyClientRequest)
      (ParseResult (HttpProxyClientRequest × Bytes)) :=
  HeadReader.parse (requestType parseMoreHeader) maxHeaderSize

def parseBasic (maxHeaderSize : Nat) :
    Future (HeadReader HttpProxyClientRequest)
      (ParseResult (HttpProxyClientRequest × Bytes)) :=
  parse maxHeaderSize appendParsedHeader

def keepAlive : Bool := req.head.keepAlive

/-- RFC 4559: body is only allowed after Negotiate/NTLM auth success. -/
def bodyType : Option HttpBodyType :=
  if req.authorizationNegotiate then none else req.head.checkBodyType

/-- Only idempotent requests without body are pipelined, and none of a Negotiate/NTLM auth. -/
def pipelineSafe : Bool :=
  if req.authorizationNegotiate then false
  else
    ["GET", "HEAD", "PUT", "DELETE", "QUERY"].any (req.head.method.text == ascii ·) &&
      req.head.checkBodyType.isNone

def isConnect : Bool := req.head.method.text == ascii "CONNECT"

def serializeForOrigin : Bytes := req.head.serializeForOrigin

end HttpProxyClientRequest

end Vey.Http
