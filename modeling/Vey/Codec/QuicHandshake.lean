import Vey.Codec.ClientHello
import Vey.Schemes.Spans

/-! The handshake coalescer of QUIC: a message is put together from the CRYPTO frames of its stream.

        buf   [ header |  ...  |........|  frame  |....]
                               ^ unfilled_offset        ^ expected_length
                                        `---------'       in fragment_set

    The length of the message is known with the first four bytes. Frames have to come in order until
    then; afterwards a frame that starts behind a gap is noted in the fragment set.

    A slice that is out of range is a panic, and has no result here. -/

namespace Vey.Codec.Quic
open Schemes

inductive FrameParseError where
  | outOfOrderFrame (msg : Bytes)
  | malformedFrame (msg : Bytes)

structure CryptoFrame where
  streamOffset : Nat
  data : Bytes

/-- `Vec::resize` with zeros. -/
def resize (buf : Bytes) (n : Nat) : Bytes := buf.take n ++ List.replicate (n - buf.length) 0

/-- `buf[offset..].copy_from_slice(data)`, for as many bytes as there are in the data. -/
def copyFromSlice (buf : Bytes) (offset : Nat) (data : Bytes) : Option Bytes :=
  if offset + data.length ≤ buf.length then some (overwrite buf offset data) else none

/-- Puts a message together from CRYPTO frames. -/
structure HandshakeCoalescer where
  maxMessageSize : Nat
  header : Option HandshakeHeader := none
  buf : Bytes := []
  unfilledOffset : Nat := 0
  expectedLength : Nat := 0
  fragmentSet : SpanSet := .empty

namespace HandshakeCoalescer

variable (c : HandshakeCoalescer)

def finished : Bool :=
  decide (0 < c.expectedLength) && c.expectedLength == c.unfilledOffset

def advanceUnfilled (stop : Nat) : HandshakeCoalescer :=
  if stop ≤ c.unfilledOffset then c
  else { c with
    unfilledOffset := (sweep stop c.fragmentSet.spans).1
    fragmentSet := c.fragmentSet.afterSweep stop }

def captureHeader : Option (Except FrameParseError Unit × HandshakeCoalescer) :=
  if 0 < c.expectedLength then some (.ok (), c)
  else if c.buf.length < c.unfilledOffset then none
  else match HandshakeHeader.tryParse (c.buf.take c.unfilledOffset) with
    | none => some (.ok (), c)
    | some header =>
      if c.maxMessageSize < header.msgLength then
        some (.error (.malformedFrame (ascii "too large message length for TLS handshake")), c)
      else
        let msgLen := header.encodedLen
        -- A frame may continue into the next handshake message.
        some (.ok (), { c with
          expectedLength := msgLen
          header := some header
          unfilledOffset := if msgLen < c.unfilledOffset then msgLen else c.unfilledOffset
          buf := resize c.buf msgLen })

def headerMissing : FrameParseError :=
  .outOfOrderFrame (ascii "handshake header missing when receiving from crypto frame")

/-- The bytes of a frame that starts in the prefix, written to the buffer. -/
def store (offset : Nat) (data : Bytes) : Option Bytes :=
  if offset + data.length < c.buf.length then copyFromSlice c.buf offset data
  else some (resize c.buf offset ++ data)

/-- How much of a frame belongs to this message. -/
def takeLength (frame : CryptoFrame) : Nat :=
  if 0 < c.expectedLength then min frame.data.length (c.expectedLength - frame.streamOffset)
  else frame.data.length

def recvCrypto (frame : CryptoFrame) : Option (Except FrameParseError Unit × HandshakeCoalescer) :=
  if 0 < c.expectedLength ∧ c.expectedLength < frame.streamOffset then
    some (.error (.malformedFrame (ascii "too big stream offset value in crypto frame")), c)
  else
    let take := c.takeLength frame
    if take = 0 then
      if c.expectedLength = 0 ∧ c.unfilledOffset < frame.streamOffset then
        some (.error headerMissing, c)
      else some (.ok (), c)
    else
      let offset := frame.streamOffset
      let data := frame.data.take take
      let stop := offset + take
      if offset ≤ c.unfilledOffset then
        match c.store offset data with
        | none => none
        | some buf => ({ c with buf := buf }.advanceUnfilled stop).captureHeader
      else if c.expectedLength = 0 then
        -- drop all other frames if we don't know the real length
        some (.error headerMissing, c)
      else match copyFromSlice c.buf offset data with
        | none => none
        | some buf => some (.ok (), { c with
            buf := buf
            fragmentSet := c.fragmentSet.insert ⟨offset, take⟩ })

/-- The coalescer behind the frames, with those that it has accepted. -/
def recvAll (c : HandshakeCoalescer) :
    List CryptoFrame → Option (HandshakeCoalescer × List CryptoFrame)
  | [] => some (c, [])
  | frame :: frames =>
    match c.recvCrypto frame with
    | none => none
    | some (r, c) => (c.recvAll frames).map fun (c, accepted) =>
      (c, if r.isOk then frame :: accepted else accepted)

end HandshakeCoalescer

end Vey.Codec.Quic
