import Vey.Schemes.Numeral
import Vey.Schemes.Utf8

/-! The header types of `vey-types`: names, values and maps, and the values that the proxy reads.

    Names and values are checked by the `http` crate, a parameter here: `HttpHeaders` states what
    its documentation promises of `HeaderName` and `HeaderValue`. The iteration order of its
    `HeaderMap` is arbitrary; a map is modelled by its fields in the order they were appended.

        Transfer-Encoding -> TransferEncodingValue         Connection -> ConnectionValue
        TE                -> AcceptTransferEncodingValue   Keep-Alive -> KeepAliveValue
        Authorization     -> AuthorizationValueParser      Upgrade    -> HttpUpgradeToken -/

namespace Vey.Types
open Schemes

/-- A character of a token: visible and no delimiter. -/
def isTokenChar (b : UInt8) : Bool :=
  33 ≤ b && b < 127 && !(ascii "\"(),/:;<=>?@[\\]\x7b\x7d").contains b

/-- A visible ASCII character, a blank or a tab. -/
def isValueChar (b : UInt8) : Bool := (32 ≤ b && b < 127) || b == 9

class HttpHeaders where
  /-- `HeaderName::from_str`: the name in lower case -/
  headerName : Bytes → Option Bytes
  headerName_lower : ∀ {b n}, headerName b = some n → n = b.map lower
  headerName_token : ∀ {b n}, headerName b = some n → b ≠ [] ∧ ∀ c ∈ b, isTokenChar c = true
  /-- `HeaderValue::from_str` succeeds -/
  headerValue : Bytes → Bool
  headerValue_visible : ∀ {v}, headerValue v = true → ∀ c ∈ v, isValueChar c = true

export HttpHeaders (headerName headerValue)

/-- What the laws describe, with the length limit of a name. -/
instance (priority := low) : HttpHeaders where
  headerName b :=
    if b ≠ [] ∧ b.length < 2 ^ 16 ∧ b.all isTokenChar = true then some (b.map lower) else none
  headerName_lower h := by
    simp only [Option.ite_none_right_eq_some, Option.some.injEq] at h
    exact h.2.symm
  headerName_token h := by
    simp only [Option.ite_none_right_eq_some, List.all_eq_true] at h
    exact ⟨h.1.1, h.1.2.2⟩
  headerValue v := v.all isValueChar
  headerValue_visible h := by simpa using h

/-! ### Values and maps -/

structure H1HeaderValue where
  inner : Bytes
  originalName : Option Bytes
  deriving DecidableEq

def H1HeaderValue.fromStr [HttpHeaders] (s : Bytes) : Option H1HeaderValue :=
  if headerValue s then some ⟨s, none⟩ else none

def H1HeaderValue.setOriginalName (v : H1HeaderValue) (name : Bytes) : H1HeaderValue :=
  { v with originalName := some name }

/-- A field with its name in lower case. -/
abbrev H1HeaderMap := List (Bytes × H1HeaderValue)

namespace H1HeaderMap

variable (m : H1HeaderMap)

def append (name : Bytes) (v : H1HeaderValue) : H1HeaderMap := m ++ [(name, v)]

/-- Drops every value of the name. -/
def remove (name : Bytes) : H1HeaderMap := m.filter fun e => e.1 ≠ name

/-- Puts one value in the place of every value of the name. -/
def insert (name : Bytes) (v : H1HeaderValue) : H1HeaderMap :=
  (m.remove name).append name v

end H1HeaderMap

/-- The wire spelling of a well-known header, once one of the right length was received. -/
structure HttpKnownHeaderName where
  received : Option Bytes := none
  deriving DecidableEq

namespace HttpKnownHeaderName

variable (k : HttpKnownHeaderName)

/-- Keeps the first name received. -/
def receive (known name : Bytes) : HttpKnownHeaderName :=
  if k.received.isNone then ⟨some (if name.length = known.length then name else known)⟩ else k

def isReceived : Bool := k.received.isSome

def asBytes (known : Bytes) : Bytes := k.received.getD known

end HttpKnownHeaderName

/-- The names of `http_names`. -/
def connectionName : Bytes := ascii "Connection"
def hostName : Bytes := ascii "Host"
def keepAliveName : Bytes := ascii "Keep-Alive"
def transferEncodingName : Bytes := ascii "Transfer-Encoding"
def teName : Bytes := ascii "TE"

/-! ### Lists of items -/

/-- `u8::is_ascii_whitespace` -/
def isAsciiWhitespace (b : UInt8) : Bool := b == 32 || b == 9 || b == 10 || b == 12 || b == 13

/-- `trim_ascii_start` -/
def trimAsciiStart (b : Bytes) : Bytes := b.dropWhile isAsciiWhitespace

/-- `trim_ascii` -/
def trimAscii (b : Bytes) : Bytes := (trimAsciiStart (trimAsciiStart b).reverse).reverse

structure GenericItem where
  value : Bytes
  params : Bytes

def parseMember (member : Bytes) : Option GenericItem :=
  let member := trimAscii member
  let item : GenericItem :=
    match memchr 59 member with
    | some i => ⟨trimAscii (member.take i), trimAscii (member.drop (i + 1))⟩
    | none => ⟨member, []⟩
  if item.value = [] then none else some item

/-- `as_generic_item_list` -/
def genericItemList (b : Bytes) : List GenericItem := (b.splitOn 44).filterMap parseMember

/-! ### Transfer codings -/

inductive TransferCompressKind where
  | identity
  | compress
  | deflate
  | gzip
  deriving DecidableEq

def TransferCompressKind.asStr : TransferCompressKind → Bytes
  | .identity => ascii "identity"
  | .compress => ascii "compress"
  | .deflate => ascii "deflate"
  | .gzip => ascii "gzip"

inductive TransferCodingName where
  | chunked
  | trailers
  | compress (kind : TransferCompressKind)

def parseTransferCodingName (kind : Bytes) : Option TransferCodingName :=
  if eqIgnoreCase kind (ascii "chunked") then some .chunked
  else if eqIgnoreCase kind (ascii "compress") then some (.compress .compress)
  else if eqIgnoreCase kind (ascii "deflate") then some (.compress .deflate)
  else if eqIgnoreCase kind (ascii "gzip") then some (.compress .gzip)
  else if eqIgnoreCase kind (ascii "identity") then some (.compress .identity)
  else if eqIgnoreCase kind (ascii "trailers") then some .trailers
  else if eqIgnoreCase kind (ascii "x-gzip") then some (.compress .gzip)
  else if eqIgnoreCase kind (ascii "x-compress") then some (.compress .compress)
  else none

inductive InvalidTransferEncodingValue where
  | compressKindAlreadySet (kind : TransferCompressKind)
  | invalidChunkedPosition
  | invalidCodingType
  | unexpectedParameter
  deriving DecidableEq

structure TransferEncodingValue where
  compressKind : Option TransferCompressKind := none
  chunked : Bool := false
  deriving DecidableEq

namespace TransferEncodingValue

variable (v : TransferEncodingValue)

def bodyCompressed : Bool :=
  match v.compressKind with
  | some kind => kind != .identity
  | none => false

/-- The field that is written, as a name and a value. -/
def writeChunked (name : Bytes) : List (Bytes × Bytes) :=
  if v.chunked then [(name, ascii "chunked")] else []

/-- `write`: every coding that was received. -/
def write (name : Bytes) : List (Bytes × Bytes) :=
  match v.compressKind with
  | some kind => [(name, kind.asStr ++ if v.chunked then ascii ", chunked" else [])]
  | none => v.writeChunked name

def parseItem (item : GenericItem) : Except InvalidTransferEncodingValue TransferEncodingValue :=
  if v.chunked then .error .invalidChunkedPosition
  else if item.params ≠ [] then .error .unexpectedParameter
  else
    match parseTransferCodingName item.value with
    | some .chunked => .ok { v with chunked := true }
    | some (.compress kind) =>
      match v.compressKind with
      | some kind => .error (.compressKindAlreadySet kind)
      | none => .ok { v with compressKind := some kind }
    | some .trailers => .error .invalidCodingType
    | none => .error .invalidCodingType

def parse (buf : Bytes) : Except InvalidTransferEncodingValue TransferEncodingValue :=
  (genericItemList buf).foldlM parseItem v

end TransferEncodingValue

inductive InvalidAcceptTransferEncodingValue where
  | compressKindAlreadySet (kind : TransferCompressKind)
  | invalidCodingType
  | invalidQValue
  deriving DecidableEq

/-- A rank in thousandths: `TransferCodingQValue::parse`. -/
def parseQValue (buf : Bytes) : Option Nat :=
  match buf with
  | [49] => some 1000
  | 49 :: 46 :: rest => if rest.length ≤ 3 ∧ rest.all (· == 48) then some 1000 else none
  | [48] => some 0
  | 48 :: 46 :: rest =>
    if rest.length ≤ 3 ∧ rest.all (fun b => (decVal b).isSome) then
      some (numeral 10 decVal rest * 10 ^ (3 - rest.length))
    else none
  | _ => none

def parseQParam (params : Bytes) : Option Nat :=
  match trimAscii params with
  | q :: eq :: rest =>
    if lower q = 113 ∧ eq = 61 ∧ 59 ∉ q :: eq :: rest then parseQValue rest else none
  | _ => none

structure AcceptTransferEncodingValue where
  trailers : Bool := false
  gzip : Option Nat := none
  deflate : Option Nat := none
  compress : Option Nat := none
  identity : Option Nat := none
  deriving DecidableEq

namespace AcceptTransferEncodingValue

variable (v : AcceptTransferEncodingValue)

/-- Rank a coding whose rank is not set yet. -/
def setQValue (kind : TransferCompressKind) (q : Nat) :
    Except InvalidAcceptTransferEncodingValue AcceptTransferEncodingValue :=
  match kind with
  | .gzip =>
    if v.gzip.isSome then .error (.compressKindAlreadySet kind) else .ok { v with gzip := some q }
  | .deflate =>
    if v.deflate.isSome then .error (.compressKindAlreadySet kind)
    else .ok { v with deflate := some q }
  | .compress =>
    if v.compress.isSome then .error (.compressKindAlreadySet kind)
    else .ok { v with compress := some q }
  | .identity =>
    if v.identity.isSome then .error (.compressKindAlreadySet kind)
    else .ok { v with identity := some q }

def parseItem (item : GenericItem) :
    Except InvalidAcceptTransferEncodingValue AcceptTransferEncodingValue :=
  match if item.params = [] then some 1000 else parseQParam item.params with
  | none => .error .invalidQValue
  | some q =>
    match parseTransferCodingName item.value with
    | some .trailers => .ok { v with trailers := true }
    | some (.compress kind) => v.setQValue kind q
    | some .chunked => .error .invalidCodingType
    | none => .error .invalidCodingType

def parse (buf : Bytes) : Except InvalidAcceptTransferEncodingValue AcceptTransferEncodingValue :=
  (genericItemList buf).foldlM parseItem v

def writeTrailers (name : Bytes) : List (Bytes × Bytes) :=
  if v.trailers then [(name, ascii "trailers")] else []

end AcceptTransferEncodingValue

/-! ### Connection and Keep-Alive -/

/-- `u64::from_str`: digits behind an optional `+`. -/
def parseU64 (s : Bytes) : Option UInt64 :=
  let ds := if s.head? = some 43 then s.tail else s
  if ds ≠ [] ∧ ds.all (fun b => (decVal b).isSome) ∧ numeral 10 decVal ds < 2 ^ 64 then
    some (UInt64.ofNat (numeral 10 decVal ds))
  else none

structure KeepAliveValue where
  timeout : Option UInt64 := none
  max : Option UInt64 := none
  deriving DecidableEq

namespace KeepAliveValue

variable (v : KeepAliveValue)

def parseItem (item : GenericItem) : KeepAliveValue :=
  match memchr 61 item.value with
  | none => v
  | some eq =>
    let name := trimAscii (item.value.take eq)
    match parseU64 (trimAscii (item.value.drop (eq + 1))) with
    | none => v
    | some n =>
      if eqIgnoreCase name (ascii "timeout") then { v with timeout := some n }
      else if eqIgnoreCase name (ascii "max") then { v with max := some n }
      else v

def parse (buf : Bytes) : KeepAliveValue :=
  (genericItemList buf).foldl parseItem v

def text : Bytes :=
  match v.timeout, v.max with
  | some t, some m => ascii "timeout=" ++ decFmt t.toNat ++ ascii ", max=" ++ decFmt m.toNat
  | some t, none => ascii "timeout=" ++ decFmt t.toNat
  | none, some m => ascii "max=" ++ decFmt m.toNat
  | none, none => []

def write (name : Bytes) : List (Bytes × Bytes) :=
  if v.timeout.isNone ∧ v.max.isNone then [] else [(name, v.text)]

end KeepAliveValue

inductive ConnectionPersistence where
  | keepAlive
  | close
  deriving DecidableEq

inductive Version where
  | http10
  | http11
  deriving DecidableEq

/-- The format `{:?}` of a version. -/
def Version.text : Version → Bytes
  | .http10 => ascii "HTTP/1.0"
  | .http11 => ascii "HTTP/1.1"

structure ConnectionValue where
  persistence : Option ConnectionPersistence := none
  upgrade : Bool := false
  extra : List Bytes := []
  keepAliveName : HttpKnownHeaderName := {}
  keepalive : KeepAliveValue := {}
  deriving DecidableEq

namespace ConnectionValue

/-- Without a token the version decides. -/
def keepAlive (v : ConnectionValue) (version : Version) : Bool :=
  match v.persistence with
  | some .keepAlive => true
  | some .close => false
  | none => version == .http11

def parseItem [HttpHeaders] (v : ConnectionValue) (item : GenericItem) : ConnectionValue :=
  let token := item.value
  if eqIgnoreCase token (ascii "keep-alive") then
    if v.persistence ≠ some .close then { v with persistence := some .keepAlive } else v
  else if eqIgnoreCase token (ascii "close") then { v with persistence := some .close }
  else if eqIgnoreCase token (ascii "upgrade") then { v with upgrade := true }
  else if eqIgnoreCase token (ascii "te") then v -- listed only when TE is emitted
  else
    match headerName token with
    | some h => { v with extra := v.extra ++ [h] }
    | none => v

def parse [HttpHeaders] (v : ConnectionValue) (buf : Bytes) : ConnectionValue :=
  (genericItemList buf).foldl parseItem v

variable (v : ConnectionValue)

def parseKeepAlive (name value : Bytes) : ConnectionValue :=
  { v with
    keepAliveName := v.keepAliveName.receive Types.keepAliveName name
    keepalive := v.keepalive.parse value }

/-- `write_for_req`: the fields `Connection` and `Keep-Alive`. -/
def writeForReq (name : Bytes) (keepAlive : Bool) (te : Option Bytes) : List (Bytes × Bytes) :=
  let kaName := v.keepAliveName.asBytes Types.keepAliveName
  let first := if keepAlive then kaName else ascii "Close"
  let tokens := te.toList ++ (if v.upgrade then [ascii "upgrade"] else []) ++ v.extra
  (name, first ++ tokens.flatMap fun t => ascii ", " ++ t) ::
    if keepAlive then v.keepalive.write kaName else []

/-- `write_for_rsp` -/
def writeForRsp (name : Bytes) (keepAlive : Bool) : List (Bytes × Bytes) :=
  v.writeForReq name keepAlive none

end ConnectionValue

/-! ### Authorization and Upgrade -/

inductive AuthorizationScheme where
  | basic
  | bearer
  | digest
  | negotiate
  | ntlm
  | other (token : Bytes)

/-- Connection-based schemes from RFC 4559. -/
def AuthorizationScheme.isSessionBased : AuthorizationScheme → Bool
  | .negotiate | .ntlm => true
  | _ => false

def AuthorizationScheme.fromToken (token : Bytes) : AuthorizationScheme :=
  if eqIgnoreCase token (ascii "basic") then .basic
  else if eqIgnoreCase token (ascii "bearer") then .bearer
  else if eqIgnoreCase token (ascii "digest") then .digest
  else if eqIgnoreCase token (ascii "negotiate") then .negotiate
  else if eqIgnoreCase token (ascii "ntlm") then .ntlm
  else .other token

structure AuthorizationValueParser where
  scheme : AuthorizationScheme
  content : Bytes

def AuthorizationValueParser.parse (buf : Bytes) : Option AuthorizationValueParser :=
  let buf := trimAsciiStart buf
  let schemeEnd := (memchr 32 buf).getD buf.length
  let token := buf.take schemeEnd
  if token = [] then none
  else some ⟨.fromToken token, trimAsciiStart (buf.drop schemeEnd)⟩

inductive HttpUpgradeToken where
  | http (version : Bytes)
  | tls (major minor : Nat)
  | websocket
  | connectUdp
  | connectIp
  deriving DecidableEq

/-- Library functions on text that are left open. -/
class TextFunctions where
  /-- `str::to_lowercase` -/
  toLowercase : Bytes → Bytes
  /-- `str::to_uppercase` -/
  toUppercase : Bytes → Bytes
  /-- the credentials of Basic authorization: `HttpBasicAuth::from_str` succeeds -/
  basicAuth : Bytes → Bool

instance (priority := low) : TextFunctions where
  toLowercase b := b.map lower
  toUppercase b := b.map upper
  basicAuth b := !b.isEmpty

export TextFunctions (toLowercase toUppercase basicAuth)

def HttpUpgradeToken.fromStr [TextFunctions] (s : Bytes) : Option HttpUpgradeToken :=
  match memchr 47 s with
  | some i =>
    let p := toLowercase (s.take i)
    let v := s.drop (i + 1)
    if p = ascii "http" then
      if v = ascii "1.0" ∨ v = ascii "1.1" ∨ v = ascii "2.0" then some (.http v) else none
    else if p = ascii "tls" then
      if v = ascii "1.0" then some (.tls 1 0)
      else if v = ascii "1.1" then some (.tls 1 1)
      else if v = ascii "1.2" then some (.tls 1 2)
      else if v = ascii "1.3" then some (.tls 1 3)
      else none
    else none
  | none =>
    let p := toLowercase s
    if p = ascii "http" then some (.http (ascii "1.1"))
    else if p = ascii "websocket" then some .websocket
    else if p = ascii "connect-udp" then some .connectUdp
    else if p = ascii "connect-ip" then some .connectIp
    else none

inductive HttpAuth where
  | none
  | basic (credentials : Bytes)

def HttpAuth.fromAuthorization [TextFunctions] (p : AuthorizationValueParser) : Option HttpAuth :=
  match p.scheme with
  | .basic => if validUtf8 p.content ∧ basicAuth p.content then some (.basic p.content) else .none
  | _ => some .none

end Vey.Types
