import Vey.Http.ChunkedDecoder
import Vey.Http.HeaderLine

/-! `HttpBodyDecodeReader` and `TrailerReader`: read a body with its transfer coding taken off.

    The payload is read first, until `read_data_done`; the trailer fields of a chunked body are read
    by `trailer()` afterwards, which marks the body finished. -/

namespace Vey.Http
open Schemes Vey.Types

/-! ### The trailer -/

inductive TrailerReadError where
  | readError (e : IoError)
  | readClosed
  | invalidHeaderLine (e : HttpLineParseError)
  | headerTooLarge

structure TrailerReader where
  reader : Source
  trailerMaxSize : Nat
  cachedLine : Bytes := []
  headers : H1HeaderMap := []
  headerSize : Nat := 0
  active : Bool := false

namespace TrailerReader

variable [HttpHeaders]

def new (reader : Source) (trailerMaxSize : Nat) : TrailerReader :=
  { reader := reader, trailerMaxSize := trailerMaxSize }

/-- A line that is no blank line has to be a field. -/
def parseField (line : Bytes) : Except HttpLineParseError (Bytes × H1HeaderValue) :=
  match HttpHeaderLine.parse line with
  | .error e => .error e
  | .ok header =>
    match headerName header.name with
    | none => .error .invalidHeaderName
    | some name =>
      match H1HeaderValue.fromStr header.value with
      | none => .error .invalidHeaderValue
      | some value => .ok (name, value)

/-- The line that ends the trailer. -/
def isBlank (line : Bytes) : Bool :=
  line.getD 0 0 == lf || (line.getD 0 0 == cr && line.getD 1 0 == lf)

/-- One round of `poll_read`. -/
def step (t : TrailerReader) : Ctrl TrailerReader (Poll (Except TrailerReadError H1HeaderMap)) :=
  match t.reader.pollFillBuf with
  | (.pending, s) => .ret .pending { t with reader := s }
  | (.ready (.error e), s) => .ret (.ready (.error (.readError e))) { t with reader := s }
  | (.ready (.ok buf), s) =>
    let t := { t with reader := s, active := true }
    if buf.length = 0 then .ret (.ready (.error .readClosed)) t
    else
      match memchr lf buf with
      | none =>
        let t := { t with headerSize := t.headerSize + buf.length }
        if t.headerSize > t.trailerMaxSize then .ret (.ready (.error .headerTooLarge)) t
        else .next { t with
          cachedLine := t.cachedLine ++ buf, reader := t.reader.consume buf.length }
      | some p =>
        let t := { t with headerSize := t.headerSize + (p + 1) }
        if t.headerSize > t.trailerMaxSize then .ret (.ready (.error .headerTooLarge)) t
        else
          let t := { t with
            cachedLine := t.cachedLine ++ buf.take (p + 1), reader := t.reader.consume (p + 1) }
          if isBlank t.cachedLine then .ret (.ready (.ok t.headers)) { t with headers := [] }
          else
            match parseField t.cachedLine with
            | .error e => .ret (.ready (.error (.invalidHeaderLine e))) t
            | .ok (name, value) =>
              .next { t with cachedLine := [], headers := t.headers.append name value }

end TrailerReader

/-! ### The payload -/

inductive HttpBodyDecodeState where
  | readUntilEnd (reader : Source)
  | readFixedLength (reader : Source) (contentLength : Nat)
  | chunked (decoder : ChunkedDataDecodeReader)

/-- Reads a body without its framing. -/
structure HttpBodyDecodeReader where
  readDataDone : Bool
  finished : Bool
  totalRead : Nat
  decodeState : Option HttpBodyDecodeState

namespace HttpBodyDecodeReader

def withState (state : HttpBodyDecodeState) : HttpBodyDecodeReader where
  readDataDone := false
  finished := false
  totalRead := 0
  decodeState := some state

def newReadUntilEnd (reader : Source) : HttpBodyDecodeReader := withState (.readUntilEnd reader)

def newFixedLength (reader : Source) (contentLength : UInt64) : HttpBodyDecodeReader :=
  withState (.readFixedLength reader contentLength.toNat)

def newChunked (stream : Source) (bodyLineMaxSize : Nat) : HttpBodyDecodeReader :=
  withState (.chunked (.new stream bodyLineMaxSize))

def bodySize (r : HttpBodyDecodeReader) : Nat := r.totalRead

section

variable [AtoiRadix16]

def pollRead (r : HttpBodyDecodeReader) (cap : Nat) : IoPoll Bytes × HttpBodyDecodeReader :=
  if r.readDataDone then (.ready (.ok []), r)
  else if cap = 0 then (.ready (.ok []), r)
  else
    match r.decodeState with
    | none => (.ready (.ok []), r)
    | some (.readUntilEnd s) =>
      match s.pollRead cap with
      | (.pending, s) => (.pending, { r with decodeState := some (.readUntilEnd s) })
      | (.ready (.error e), s) =>
        (.ready (.error e), { r with decodeState := some (.readUntilEnd s) })
      | (.ready (.ok x), s) =>
        let r := { r with
          decodeState := some (.readUntilEnd s), totalRead := r.totalRead + x.length }
        (.ready (.ok x),
          if x.length = 0 then { r with readDataDone := true, finished := true } else r)
    | some (.readFixedLength s maxRead) =>
      match s.pollRead (min (maxRead - r.totalRead) cap) with
      | (.pending, s) => (.pending, { r with decodeState := some (.readFixedLength s maxRead) })
      | (.ready (.error e), s) =>
        (.ready (.error e), { r with decodeState := some (.readFixedLength s maxRead) })
      | (.ready (.ok x), s) =>
        if x.length = 0 then
          (.ready (.error ⟨.unexpectedEof, s!"EOF after read {r.totalRead} of {maxRead} body"⟩),
            { r with decodeState := some (.readFixedLength s maxRead) })
        else
          let r := { r with
            decodeState := some (.readFixedLength s maxRead), totalRead := r.totalRead + x.length }
          (.ready (.ok x),
            if r.totalRead = maxRead then { r with readDataDone := true, finished := true } else r)
    | some (.chunked d) =>
      match d.pollRead cap with
      | (.pending, d) => (.pending, { r with decodeState := some (.chunked d) })
      | (.ready (.error e), d) => (.ready (.error e), { r with decodeState := some (.chunked d) })
      | (.ready (.ok x), d) =>
        (.ready (.ok x), { r with
          decodeState := some (.chunked d)
          readDataDone := if d.finished then true else r.readDataDone
          totalRead := r.totalRead + x.length })

end

/-! ### `trailer()` -/

/-- A call of `trailer()`: before its checks, or reading the trailer. -/
structure TrailerCall where
  body : HttpBodyDecodeReader
  maxSize : Nat
  reading : Option TrailerReader := none

variable [HttpHeaders]

def TrailerCall.step (c : TrailerCall) :
    Ctrl TrailerCall (Poll (Except TrailerReadError (Option H1HeaderMap))) :=
  match c.reading with
  | none =>
    if c.body.readDataDone = false then
      .ret (.ready (.error (.readError ⟨.other, "data has not been read out yet"⟩))) c
    else if c.body.finished then .ret (.ready (.ok none)) c
    else
      match c.body.decodeState with
      | none => .ret (.ready (.ok none)) c
      | some (.chunked d) => .next { c with
          body := { c.body with decodeState := none }
          reading := some (.new d.reader c.maxSize) }
      | some _ => .ret (.ready (.ok none)) { c with body := { c.body with decodeState := none } }
  | some t =>
    match t.step with
    | .next t => .next { c with reading := some t }
    | .ret .pending t => .ret .pending { c with reading := some t }
    | .ret (.ready (.error e)) t => .ret (.ready (.error e)) { c with reading := some t }
    | .ret (.ready (.ok headers)) t =>
      .ret (.ready (.ok (if headers.isEmpty then none else some headers)))
        { c with body := { c.body with finished := true }, reading := some t }

/-- `trailer()` as a future. -/
def trailer : Future TrailerCall (Except TrailerReadError (Option H1HeaderMap)) :=
  ⟨id, TrailerCall.step⟩

end HttpBodyDecodeReader

end Vey.Http
