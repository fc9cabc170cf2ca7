import Vey.Codec.TlsRecord
import Vey.Http.RequestHead
import Vey.Serve.TaskError

/-! `parse_request`: find the upstream of a TLS connection in its ClientHello message.

    Nothing is taken out of the receive buffer, as the bytes are forwarded afterwards:

        clt_r_buf   [ record | record | record ... ]  <-- read
                                       ^ record_offset

    The buffer is bounded in the number of bytes that the largest message needs in fragments of one
    byte, with room for one more record. -/

namespace Vey.SniProxy
open Schemes Vey.Types Codec Serve Http

/-- The reads of the client connection that are still to come: their bytes, none at the end of the
    connection, or an error. -/
abbrev ClientReads := List (Except IoError Bytes)

def invalidRequest : ServerTaskError :=
  .invalidClientProtocol (ascii "invalid tls client hello request")

section
variable [Idna]

def parseSni (ch : ClientHello) (port : Nat) : Except ServerTaskError UpstreamAddr :=
  match ch.getExt extensionTypeServerName with
  | .ok (some data) =>
    match TlsServerName.fromExtensionValue data with
    | .ok sni => .ok ⟨sni.domain.asBytes, port⟩
    | .error _ => .error (.invalidClientProtocol
        (ascii "invalid server name in tls client hello message"))
  | .ok none => .error (.invalidClientProtocol
      (ascii "no server name found in tls client hello message"))
  | .error _ => .error (.invalidClientProtocol
      (ascii "invalid extension in tls client hello request"))

/-- What one record comes to: an answer, or more of the message for the coalescer. -/
inductive Round where
  | answer (a : Except ServerTaskError UpstreamAddr)
  | next (c : HandshakeCoalescer)

def consumeRecord (port : Nat) (record : Record) (c : HandshakeCoalescer) : Round :=
  match record.consumeHandshake c with
  | .ok (some msg, _, _) =>
    match msg.parseClientHello with
    | .ok ch => .answer (parseSni ch port)
    | .error _ => .answer (.error invalidRequest)
  | .ok (none, record, c) =>
    match c.parseClientHello with
    | .ok (some ch) => .answer (parseSni ch port)
    | .ok none =>
      if !record.consumeDone then
        .answer (.error (.invalidClientProtocol
          (ascii "partial fragmented tls client hello request")))
      else .next c
    | .error _ => .answer (.error (.invalidClientProtocol
        (ascii "invalid fragmented tls client hello request")))
  | .error _ => .answer (.error invalidRequest)

/-- What the rounds of the loop come to, until a read is needed. -/
inductive Scan where
  | done (a : Except ServerTaskError UpstreamAddr)
  | needMoreData (recordOffset : Nat) (c : HandshakeCoalescer)

/-- The rounds of the loop for the records that are in the buffer. -/
def scan (port : Nat) (buf : Bytes) (recordOffset : Nat) (c : HandshakeCoalescer) : Scan :=
  match _h : Record.parse (buf.drop recordOffset) with
  | .error (.needMoreData _) => .needMoreData recordOffset c
  | .error _ => .done (.error invalidRequest)
  | .ok record =>
    match consumeRecord port record c with
    | .answer a => .done a
    | .next c => scan port buf (recordOffset + record.encodedLen) c
termination_by buf.length - recordOffset
decreasing_by
  have := Record.parse_ok _h
  rw [List.length_drop] at this
  omega

/-- Parses what was read, and reads on. -/
def parseLoop (port maxBufSize : Nat) (reads : ClientReads) (buf : Bytes) (recordOffset : Nat)
    (c : HandshakeCoalescer) : Except ServerTaskError UpstreamAddr × Bytes × ClientReads :=
  match scan port buf recordOffset c with
  | .done a => (a, buf, reads)
  | .needMoreData recordOffset c =>
    if maxBufSize ≤ buf.length then
      (.error (.invalidClientProtocol (ascii "tls client hello message too large")), buf, reads)
    else match reads with
      | [] => (.error .closedByClient, buf, [])
      | .ok data :: reads =>
        if data = [] then (.error .closedByClient, buf, reads)
        else parseLoop port maxBufSize reads (buf ++ data) recordOffset c
      | .error e :: reads => (.error (.clientTcpReadFailed e), buf, reads)

/-- The bound of the receive buffer. The size of the message is a 32-bit number, so nothing
    saturates. -/
def maxBufSize (maxClientHelloSize : Nat) : Nat :=
  maxClientHelloSize * (RecordHeader.size + 1) + 2 ^ 14

/-- The answer, with the buffer and the reads that are left. -/
def parseRequest (reads : ClientReads) (buf : Bytes) (port maxClientHelloSize : Nat) :
    Except ServerTaskError UpstreamAddr × Bytes × ClientReads :=
  parseLoop port (maxBufSize maxClientHelloSize) reads buf 0
    { maxMessageSize := maxClientHelloSize }

end

end Vey.SniProxy
