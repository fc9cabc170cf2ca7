import Vey.Http.BodyReader

/-! `ChunkedDataDecodeReader`: decode the payload of a chunked body and leave its trailer.

    The decoder ends a size line at LF and takes a chunk end of CR LF or of LF alone. A poll goes
    on over framing when the caller's buffer is full, up to the next payload byte:

        size line -> payload -> chunk end (poll_chunk_end_r, then poll_chunk_end_n) -> size line
                                                                         size 0 -> finished

    It follows the lenient reading of chunked framing. -/

namespace Vey.Http
open Schemes

/-- The reader with the fields of its internal state. -/
structure ChunkedDataDecodeReader where
  reader : Source
  bodyLineMaxSize : Nat
  chunkHeader : Bytes := []
  thisChunkSize : Nat := 0
  leftChunkSize : Nat := 0
  pollChunkEndR : Bool := false
  pollChunkEndN : Bool := false
  pollChunkEnd : Bool := false

namespace ChunkedDataDecodeReader

def new (reader : Source) (bodyLineMaxSize : Nat) : ChunkedDataDecodeReader :=
  { reader := reader, bodyLineMaxSize := bodyLineMaxSize }

/-- Continue decoding after a preview read stopped mid-chunk. -/
def resume (reader : Source) (bodyLineMaxSize : Nat) (leftChunkSize : UInt64) :
    ChunkedDataDecodeReader :=
  { reader := reader, bodyLineMaxSize := bodyLineMaxSize
    thisChunkSize := leftChunkSize.toNat, leftChunkSize := leftChunkSize.toNat }

variable (d : ChunkedDataDecodeReader)

def finished : Bool := d.pollChunkEnd && d.thisChunkSize == 0

/-- `left_chunk_size()` -/
def leftSize : Option Nat :=
  if d.pollChunkEndR || d.pollChunkEndN then none else some d.leftChunkSize

def pendingCancelSafe : Bool :=
  d.chunkHeader.isEmpty && !d.pollChunkEndR && !d.pollChunkEndN

def consume (n : Nat) : ChunkedDataDecodeReader :=
  { d with reader := d.reader.consume n }

/-- The bytes that the stream has buffered, not empty. -/
def withBuf (closed : String)
    (k : ChunkedDataDecodeReader → Bytes → Except IoError Unit × ChunkedDataDecodeReader) :
    IoPoll Unit × ChunkedDataDecodeReader :=
  match d.reader.pollFillBuf with
  | (.pending, s) => (.pending, { d with reader := s })
  | (.ready (.error e), s) => (.ready (.error e), { d with reader := s })
  | (.ready (.ok buf), s) =>
    if buf.length = 0 then (.ready (.error ⟨.unexpectedEof, closed⟩), { d with reader := s })
    else
      let (res, d) := k { d with reader := s } buf
      (.ready res, d)

/-- The branch for `poll_chunk_end_n`. -/
def chunkEndN (buf : Bytes) : Except IoError Unit × ChunkedDataDecodeReader :=
  if buf.headD 0 = lf then (.ok (), { d.consume 1 with pollChunkEnd := true })
  else (.error ⟨.invalidData, "no end whitespace found"⟩, d)

/-- The branch for `poll_chunk_end_r`. -/
def chunkEndR (buf : Bytes) : Except IoError Unit × ChunkedDataDecodeReader :=
  if buf.headD 0 = cr then
    if buf.length = 1 then (.ok (), { d.consume 1 with pollChunkEndN := true })
    else if buf.getD 1 0 = lf then (.ok (), { d.consume 2 with pollChunkEnd := true })
    else (.error ⟨.invalidData, "invalid end whitespace pair"⟩, d)
  else if buf.headD 0 = lf then (.ok (), { d.consume 1 with pollChunkEnd := true })
  else (.error ⟨.invalidData, "no end whitespace found"⟩, d)

def closedInLineEnd : String := "reader closed while reading chunk line end whitespace"

def clearChunkEnd : ChunkedDataDecodeReader :=
  { d with pollChunkEnd := false, pollChunkEndN := false, pollChunkEndR := false }

/-- One round of `poll_finish_chunk_end`. -/
def finishChunkEndStep : Ctrl ChunkedDataDecodeReader (IoPoll Unit) :=
  if d.pollChunkEnd then
    .ret (.ready (.ok ())) (if d.thisChunkSize ≠ 0 then d.clearChunkEnd else d)
  else if d.pollChunkEndN || d.pollChunkEndR then
    match d.withBuf closedInLineEnd (if d.pollChunkEndN then chunkEndN else chunkEndR) with
    | (.pending, d) => .ret .pending d
    | (.ready (.error e), d) => .ret (.ready (.error e)) d
    | (.ready (.ok _), d) => .next d
  else .ret (.ready (.ok ())) d

/-- `finish_pending_chunk_end` -/
def finishPendingChunkEnd : Future ChunkedDataDecodeReader (Except IoError Unit) :=
  ⟨id, finishChunkEndStep⟩

section

variable [AtoiRadix16] (d : ChunkedDataDecodeReader)

/-- A read of payload into a buffer with `room` bytes left. -/
def pollPayload (room : Nat) : IoPoll Bytes × ChunkedDataDecodeReader :=
  match d.reader.pollRead (min d.leftChunkSize room) with
  | (.pending, s) => (.pending, { d with reader := s })
  | (.ready (.error e), s) => (.ready (.error e), { d with reader := s })
  | (.ready (.ok x), s) =>
    if x.length = 0 then
      (.ready (.error ⟨.unexpectedEof, "reader closed while reading chunk data"⟩),
        { d with reader := s })
    else
      let left := d.leftChunkSize - x.length
      (.ready (.ok x), { d with
        reader := s, leftChunkSize := left
        pollChunkEndR := if left = 0 then true else d.pollChunkEndR })

def lineTooLong : IoError :=
  ⟨.other, s!"chunk header line too long (> {d.bodyLineMaxSize})"⟩

/-- The whole size line is in `chunk_header`. -/
def startChunk : Except IoError Unit × ChunkedDataDecodeReader :=
  match HttpChunkedLine.parse d.chunkHeader with
  | .error e => (.error ⟨.invalidData, e.text⟩, d)
  | .ok line =>
    let d := { d with thisChunkSize := line.chunkSize, leftChunkSize := line.chunkSize }
    if line.chunkSize = 0 then (.ok (), { d with pollChunkEnd := true })
    else (.ok (), { d with chunkHeader := [] })

/-- The size line, as far as it is buffered. -/
def chunkHeaderIn (buf : Bytes) : Except IoError Unit × ChunkedDataDecodeReader :=
  match memchr lf buf with
  | some p =>
    let len := p + 1
    if d.chunkHeader.length + len > d.bodyLineMaxSize then (.error d.lineTooLong, d)
    else { d with chunkHeader := d.chunkHeader ++ buf.take len }.consume len |>.startChunk
  | none =>
    let len := buf.length
    if d.chunkHeader.length + len > d.bodyLineMaxSize then (.error d.lineTooLong, d)
    else (.ok (), { d with chunkHeader := d.chunkHeader ++ buf }.consume len)

/-- A poll in flight: the decoder and what the poll has put into the caller's buffer. -/
structure Decoding where
  decoder : ChunkedDataDecodeReader
  filled : Bytes

/-- Go on with framing that was read without a payload byte. -/
def Decoding.framing (filled : Bytes) :
    IoPoll Unit × ChunkedDataDecodeReader → Ctrl Decoding (IoPoll Unit)
  | (.pending, d) => .ret .pending ⟨d, filled⟩
  | (.ready (.error e), d) => .ret (.ready (.error e)) ⟨d, filled⟩
  | (.ready (.ok _), d) => .next ⟨d, filled⟩

/-- One round of `poll_decode` for a buffer of `cap` bytes. The loop over the pieces of a size line
    is part of the outer loop: neither changes what the other one branches on. -/
def decodeStep (cap : Nat) (s : Decoding) : Ctrl Decoding (IoPoll Unit) :=
  let d := s.decoder
  if d.pollChunkEnd then
    if d.thisChunkSize = 0 then .ret (.ready (.ok ())) s
    else .next { s with decoder := d.clearChunkEnd }
  else if d.pollChunkEndN then Decoding.framing s.filled (d.withBuf closedInLineEnd chunkEndN)
  else if d.pollChunkEndR then Decoding.framing s.filled (d.withBuf closedInLineEnd chunkEndR)
  else if d.leftChunkSize > 0 then
    if cap - s.filled.length = 0 then .ret (.ready (.ok ())) s
    else
      match d.pollPayload (cap - s.filled.length) with
      | (.pending, d) => .ret .pending { s with decoder := d }
      | (.ready (.error e), d) => .ret (.ready (.error e)) { s with decoder := d }
      | (.ready (.ok x), d) => .next ⟨d, s.filled ++ x⟩
  else
    Decoding.framing s.filled (d.withBuf "reader closed while reading chunk line" chunkHeaderIn)

/-- Every round but the reset of the chunk end takes a byte off the stream. -/
def budget : Nat :=
  2 * d.reader.content.length + if d.pollChunkEnd then 1 else 0

def pollDecode (cap : Nat) : IoPoll Unit × Decoding :=
  (iter (decodeStep cap) (d.budget + 1) ⟨d, []⟩).getD (.pending, ⟨d, []⟩)

/-- A stall behind some payload is reported by the next poll only. -/
def pollRead (cap : Nat) : IoPoll Bytes × ChunkedDataDecodeReader :=
  match d.pollDecode cap with
  | (.pending, s) => (if s.filled.length > 0 then .ready (.ok s.filled) else .pending, s.decoder)
  | (.ready (.error e), s) => (.ready (.error e), s.decoder)
  | (.ready (.ok _), s) => (.ready (.ok s.filled), s.decoder)

end

end ChunkedDataDecodeReader

end Vey.Http
