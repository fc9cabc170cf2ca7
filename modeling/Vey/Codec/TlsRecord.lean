import Vey.Codec.ClientHello

/-! Records of the TLS record layer, and the handshake message that they carry.

        record   type version(16) length(16) | fragment          fragment          fragment
        message                                header | body ... | ... body ... | ... | next message

    A message that lies in one fragment is taken from there. Otherwise its fragments are coalesced, and
    a header that is cut by a record boundary is completed first. -/

namespace Vey.Codec
open Schemes Vey.Types List

/-- `ContentType` is kept as its number; these are the ones that are accepted. -/
def contentTypes : List UInt8 := [20, 21, 22, 23, 24]

/-- `ContentType::Handshake` -/
def contentTypeHandshake : UInt8 := 22

inductive RecordParseError where
  | needMoreData (n : Nat)
  | unsupportedVersion (v : RawVersion)
  | invalidContentType (contentType : UInt8)
  | fragmentLengthExceeded
  | emptyHandshakeFragment

structure RecordHeader where
  version : RawVersion
  contentType : UInt8
  fragmentSize : Nat

namespace RecordHeader

/-- SIZE -/
def size : Nat := 5

/-- The header in data that is long enough for it. -/
def parse (data : Bytes) : Except RecordParseError RecordHeader :=
  let contentType := data.getD 0 0
  let version : RawVersion := ⟨data.getD 1 0, data.getD 2 0⟩
  if contentType ∉ contentTypes then .error (.invalidContentType contentType)
  else if !version.supported then .error (.unsupportedVersion version)
  else .ok ⟨version, contentType, be16 (data.getD 3 0) (data.getD 4 0)⟩

end RecordHeader

/-! ### The messages of a record -/

structure HandshakeMessage where
  header : HandshakeHeader
  msgData : Bytes
  deriving DecidableEq

namespace HandshakeMessage

/-- A whole message at the front of a fragment. -/
def tryParseFragment (data : Bytes) : Option HandshakeMessage :=
  match HandshakeHeader.tryParse data with
  | none => none
  | some header =>
    if header.encodedLen ≤ data.length then some ⟨header, data.take header.encodedLen⟩ else none

def encodedLen (m : HandshakeMessage) : Nat := m.msgData.length

def parseClientHello (m : HandshakeMessage) : Except ClientHelloParseError ClientHello :=
  ClientHello.parseFragment m.header m.msgData

end HandshakeMessage

/-- Whether a message lies in the first fragment. -/
theorem Handshake.tryParseFragment_start (m : Handshake) {f tail rest : Bytes}
    (h : f ++ tail = m.message ++ rest) :
    HandshakeMessage.tryParseFragment f =
      if m.message.length ≤ f.length then some ⟨m.header, m.message⟩ else none := by
  have hlen := m.length_message
  simp only [HandshakeMessage.tryParseFragment, m.tryParse_start h]
  by_cases hfour : 4 ≤ f.length
  · simp only [if_pos hfour, m.encodedLen_header]
    by_cases hlong : m.message.length ≤ f.length
    · have htake : f.take m.message.length = m.message := by
        have := congrArg (take m.message.length) h
        rwa [take_append_of_le_length hlong, take_left] at this
      rw [if_pos hlong, if_pos hlong, htake]
    · rw [if_neg hlong, if_neg hlong]
  · simp only [if_neg hfour]
    rw [if_neg (by omega)]

inductive HandshakeCoalesceError where
  | invalidContentType (contentType : UInt8)
  | tooLargeMessageSize (size : Nat)

/-- Puts a message together from its fragments. -/
structure HandshakeCoalescer where
  maxMessageSize : Nat
  header : Option HandshakeHeader := none
  buf : Bytes := []

namespace HandshakeCoalescer

variable (c : HandshakeCoalescer)

/-- How much it takes of a first fragment. -/
def addFirstFragment (data : Bytes) : Except HandshakeCoalesceError (Nat × HandshakeCoalescer) :=
  match HandshakeHeader.tryParse data with
  | some hdr =>
    if c.maxMessageSize < hdr.msgLength then .error (.tooLargeMessageSize hdr.msgLength)
    else if data.length ≤ hdr.encodedLen then
      .ok (data.length, { c with header := some hdr, buf := c.buf ++ data })
    else
      .ok (hdr.encodedLen, { c with header := some hdr, buf := c.buf ++ data.take hdr.encodedLen })
  | none => .ok (data.length, { c with buf := c.buf ++ data })

/-- How much it takes of any fragment. -/
def coalesceFragment (data : Bytes) : Except HandshakeCoalesceError (Nat × HandshakeCoalescer) :=
  if c.buf = [] then c.addFirstFragment data
  else match c.header with
    | some hdr =>
      let needed := hdr.encodedLen - c.buf.length
      if data.length ≤ needed then .ok (data.length, { c with buf := c.buf ++ data })
      else .ok (needed, { c with buf := c.buf ++ data.take needed })
    | none =>
      let buf := c.buf ++ data
      match HandshakeHeader.tryParse buf with
      | some hdr =>
        if c.maxMessageSize < hdr.msgLength then .error (.tooLargeMessageSize hdr.msgLength)
        else if buf.length < hdr.encodedLen then
          .ok (data.length, { c with header := some hdr, buf := buf })
        else
          .ok (data.length - (buf.length - hdr.encodedLen),
            { c with header := some hdr, buf := buf.take hdr.encodedLen })
      | none => .ok (data.length, { c with buf := buf })

def isEmpty : Bool := c.buf.isEmpty

def parseClientHello : Except ClientHelloParseError (Option ClientHello) :=
  match c.header with
  | none => .ok none
  | some hdr =>
    if hdr.msgType ≠ handshakeTypeClientHello then .error (.invalidMessageType hdr.msgType)
    else if hdr.encodedLen = c.buf.length then
      (ClientHello.parseMsgData (c.buf.drop HandshakeHeader.size)).map some
    else .ok none

end HandshakeCoalescer

/-! ### Records -/

structure Record where
  header : RecordHeader
  fragment : Bytes
  consumeOffset : Nat := 0

namespace Record

def parse (data : Bytes) : Except RecordParseError Record :=
  if data.length < RecordHeader.size then
    .error (.needMoreData (RecordHeader.size - data.length))
  else match RecordHeader.parse data with
    | .error e => .error e
    | .ok header =>
      if 2 ^ 14 < header.fragmentSize then .error .fragmentLengthExceeded
      else if header.contentType = contentTypeHandshake ∧ header.fragmentSize = 0 then
        .error .emptyHandshakeFragment
      else
        let stop := RecordHeader.size + header.fragmentSize
        if data.length < stop then .error (.needMoreData (stop - data.length))
        else .ok
          { header := header, fragment := (data.drop RecordHeader.size).take header.fragmentSize }

def encodedLen (r : Record) : Nat := RecordHeader.size + r.fragment.length

def consumeDone (r : Record) : Bool := r.fragment.length ≤ r.consumeOffset

/-- What the fragment has of handshake messages: a whole message, or more for the coalescer. -/
def consumeHandshake (r : Record) (c : HandshakeCoalescer) :
    Except HandshakeCoalesceError (Option HandshakeMessage × Record × HandshakeCoalescer) :=
  if r.header.contentType ≠ contentTypeHandshake then
    .error (.invalidContentType r.header.contentType)
  else if r.consumeDone then .ok (none, r, c)
  else
    let fragment := r.fragment.drop r.consumeOffset
    match if c.isEmpty then HandshakeMessage.tryParseFragment fragment else none with
    | some msg => .ok (some msg, { r with consumeOffset := r.consumeOffset + msg.encodedLen }, c)
    | none =>
      match c.coalesceFragment fragment with
      | .error e => .error e
      | .ok (n, c) => .ok (none, { r with consumeOffset := r.consumeOffset + n }, c)

/-- A record that was parsed lies within the data. -/
theorem parse_ok {data : Bytes} {r : Record} (h : parse data = .ok r) :
    0 < r.encodedLen ∧ r.encodedLen ≤ data.length := by
  unfold parse at h
  split at h
  case isTrue => cases h
  split at h
  case h_1 => cases h
  split at h
  case isTrue => cases h
  split at h
  case isTrue => cases h
  dsimp only at h
  split at h
  case isTrue => cases h
  case isFalse hlong =>
    cases h
    simp only [encodedLen, RecordHeader.size, length_take, length_drop] at hlong ⊢
    omega

end Record

end Vey.Codec
