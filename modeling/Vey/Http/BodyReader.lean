import Vey.Schemes.ChunkFrame
import Vey.Schemes.Loop
import Vey.Http.ChunkedLine

/-! `HttpBodyReader`: read a message body off a stream and pass it through as it is on the wire.

    A chunked body is followed part by part:

        ChunkSize -> FixedLength -> ChunkDataEnd('\r') -> ChunkDataEnd('\n') -> ChunkSize
            |
            +-- size 0 --> Trailer -> ... -> EndOfFile

    The reader keeps what it has seen of an unfinished line, and it may be stopped at every byte:
    by the end of the caller's buffer, by the end of what the stream has buffered, by a stall. -/

namespace Vey.Http
open Schemes List

inductive HttpBodyType where
  | readUntilEnd
  | contentLength (len : UInt64)
  | chunked
  deriving DecidableEq

/-- The part of a body that comes next. -/
inductive NextReadType where
  | endOfFile
  | untilEnd
  | fixedLength
  | chunkSize
  | chunkDataEnd (c : UInt8)
  | trailer
  deriving DecidableEq

/-- The text of an error, as `Display` prints it. -/
def HttpLineParseError.text : HttpLineParseError → String
  | .notLongEnough => "not long enough"
  | .lineTooLong max => s!"too long line (> {max})"
  | .invalidUtf8Encoding => "invalid utf-8 encoding"
  | .noDelimiterFound c => s!"no delimiter '{c}' found"
  | .invalidHeaderName => "invalid header name"
  | .invalidHeaderValue => "invalid header value"
  | .invalidVersion => "invalid version"
  | .invalidStatusCode => "invalid status code"
  | .invalidChunkSize => "invalid chunk size"

/-- Hands a body on with its framing. -/
structure HttpBodyReader where
  stream : Source
  bodyType : HttpBodyType
  nextReadType : NextReadType
  bodyLineMaxLen : Nat
  nextReadSize : Nat := 0
  leftTotalSize : Nat := 0
  chunkSizeLineCache : Bytes := []
  trailerLineLength : Nat := 0
  trailerLastChar : UInt8 := 0
  finished : Bool := false
  readContentLength : Nat := 0
  currentChunkSize : Nat := 0
  deriving DecidableEq

namespace HttpBodyReader

/-- `usize::MAX` -/
def usizeMax : Nat := 2 ^ 64 - 1

variable (r : HttpBodyReader)

def updateNextReadSize : HttpBodyReader :=
  if r.leftTotalSize > usizeMax then
    { r with nextReadSize := usizeMax, leftTotalSize := r.leftTotalSize - usizeMax }
  else if r.leftTotalSize > 0 then
    { r with nextReadSize := r.leftTotalSize, leftTotalSize := 0 }
  else r

variable (stream : Source)

def newReadUntilEnd : HttpBodyReader :=
  updateNextReadSize
    { stream := stream, bodyType := .readUntilEnd, nextReadType := .untilEnd
      bodyLineMaxLen := 1024 }

def newFixedLength (contentLength : UInt64) : HttpBodyReader :=
  updateNextReadSize
    { stream := stream, bodyType := .contentLength contentLength, nextReadType := .fixedLength
      bodyLineMaxLen := 1024, leftTotalSize := contentLength.toNat }

def newChunked (bodyLineMaxLen : Nat) : HttpBodyReader :=
  updateNextReadSize
    { stream := stream, bodyType := .chunked, nextReadType := .chunkSize
      bodyLineMaxLen := bodyLineMaxLen }

def newChunkedAfterPreview (bodyLineMaxLen : Nat) (nextChunkSize : UInt64) : HttpBodyReader :=
  updateNextReadSize
    { stream := stream, bodyType := .chunked, nextReadType := .fixedLength
      bodyLineMaxLen := bodyLineMaxLen, leftTotalSize := nextChunkSize.toNat
      currentChunkSize := nextChunkSize.toNat }

def new (bodyType : HttpBodyType) (bodyLineMaxLen : Nat) : HttpBodyReader :=
  match bodyType with
  | .readUntilEnd => newReadUntilEnd stream
  | .contentLength len => newFixedLength stream len
  | .chunked => newChunked stream bodyLineMaxLen

def bodySize : Nat := r.readContentLength

/-- The answer of the inner polls: the bytes put into the caller's buffer. -/
abbrev Answer := IoPoll Bytes × HttpBodyReader

def fail (kind : ErrorKind) (msg : String) : Answer :=
  (.ready (.error ⟨kind, msg⟩), r)

def pollEof (room : Nat) : Answer :=
  match r.stream.pollRead room with
  | (.pending, s) => (.pending, { r with stream := s })
  | (.ready (.error e), s) => (.ready (.error e), { r with stream := s })
  | (.ready (.ok d), s) =>
    if d.length = 0 then (.ready (.ok d), { r with stream := s, finished := true })
    else (.ready (.ok d), { r with
      stream := s, readContentLength := r.readContentLength + d.length })

/-- What follows the last byte of a chunk or of a body of fixed length. -/
def afterFixed (bodyType : HttpBodyType) (t : NextReadType) : NextReadType :=
  match bodyType with
  | .contentLength _ => .endOfFile
  | .chunked => .chunkDataEnd cr
  | .readUntilEnd => t -- `unreachable!()`: `poll_fixed` is not called for this type

/-- The bookkeeping for `nr` more payload bytes. -/
def advanceFixed (nr : Nat) : HttpBodyReader :=
  let r := { r with
    readContentLength := r.readContentLength + nr, nextReadSize := r.nextReadSize - nr }
  if r.nextReadSize = 0 then
    let r := r.updateNextReadSize
    if r.nextReadSize = 0 then { r with nextReadType := afterFixed r.bodyType r.nextReadType }
    else r
  else r

/-- Payload of a known length. -/
def pollFixed (room : Nat) : Answer :=
  match r.stream.pollRead (min room r.nextReadSize) with
  | (.pending, s) => (.pending, { r with stream := s })
  | (.ready (.error e), s) => (.ready (.error e), { r with stream := s })
  | (.ready (.ok d), s) =>
    if d.length = 0 then
      fail { r with stream := s } .unexpectedEof "reader closed while reading fixed length body"
    else (.ready (.ok d), advanceFixed { r with stream := s } d.length)

/-- The buffered bytes of the stream, no more than the caller has room for. -/
def withCache (room : Nat) (closed : String) (k : HttpBodyReader → Bytes → Answer) : Answer :=
  match r.stream.pollFillBuf with
  | (.pending, s) => (.pending, { r with stream := s })
  | (.ready (.error e), s) => (.ready (.error e), { r with stream := s })
  | (.ready (.ok cache), s) =>
    if cache.length = 0 then fail { r with stream := s } .unexpectedEof closed
    else k { r with stream := s } (cache.take room)

def consume (n : Nat) : HttpBodyReader :=
  { r with stream := r.stream.consume n }

section

variable [AtoiRadix16] (r : HttpBodyReader)

def parseChunkSizeAndUpdateNextReadType : Except IoError HttpBodyReader :=
  match HttpChunkedLine.parse r.chunkSizeLineCache with
  | .error e => .error ⟨.invalidData, e.text⟩
  | .ok chunk =>
    let r := { r with currentChunkSize := chunk.chunkSize }
    let r := if chunk.chunkSize = 0 then { r with nextReadType := .trailer }
      else updateNextReadSize
        { r with nextReadType := .fixedLength, leftTotalSize := chunk.chunkSize }
    .ok { r with chunkSizeLineCache := [] }

def checkChunkSizeLastChar (c : UInt8) : Except IoError HttpBodyReader :=
  if c ≠ lf then .error ⟨.invalidData, "invalid chunk size line ending"⟩
  else parseChunkSizeAndUpdateNextReadType
    { r with chunkSizeLineCache := r.chunkSizeLineCache ++ [lf] }

/-- Hand the bytes `out` over when the check behind them succeeds. -/
def checked (out : Bytes) (c : Except IoError HttpBodyReader) : Answer :=
  match c with
  | .error e => (.ready (.error e), r)
  | .ok r => (.ready (.ok out), r)

/-- `poll_chunk_size` on the buffered bytes `cache`. -/
def chunkSizeIn (cache : Bytes) : Answer :=
  if r.chunkSizeLineCache.getLast? = some cr then
    let nextChar := cache.headD 0
    let r := r.consume 1
    checked r [nextChar] (r.checkChunkSizeLastChar nextChar)
  else
    match memchr cr cache with
    | some offset =>
      let nw := offset + 1
      if r.chunkSizeLineCache.length + nw ≥ r.bodyLineMaxLen then
        fail r .invalidData "chunk size line too long"
      else
        let r := { r with chunkSizeLineCache := r.chunkSizeLineCache ++ cache.take nw }
        if cache.length > nw then
          let nextChar := cache.getD nw 0
          let r := r.consume (nw + 1)
          checked r (cache.take nw ++ [nextChar]) (r.checkChunkSizeLastChar nextChar)
        else (.ready (.ok (cache.take nw)), r.consume nw)
    | none =>
      let nw := cache.length
      if r.chunkSizeLineCache.length + nw ≥ r.bodyLineMaxLen then
        fail r .invalidData "chunk size line too long"
      else
        (.ready (.ok cache),
          { r with chunkSizeLineCache := r.chunkSizeLineCache ++ cache }.consume nw)

variable (room : Nat)

/-- The line with the size of a chunk. -/
def pollChunkSize : Answer :=
  withCache r room "reader closed while reading chunk line" chunkSizeIn

def updateNextReadTypeAfterChunkDataEnd : HttpBodyReader :=
  { r with nextReadType := .chunkSize }

def checkChunkDataEndLastChar (c : UInt8) : Except IoError HttpBodyReader :=
  if c ≠ lf then .error ⟨.invalidData, "invalid chunk ending last char"⟩
  else .ok r.updateNextReadTypeAfterChunkDataEnd

/-- `poll_chunk_data_end` on the buffered bytes `cache`. -/
def chunkDataEndIn (c : UInt8) (r : HttpBodyReader) (cache : Bytes) : Answer :=
  if cache.headD 0 ≠ c then fail r .invalidData "invalid chunk ending first char"
  else if c = cr then
    if cache.length > 1 then
      let r := r.consume 2
      checked r [c, lf] (r.checkChunkDataEndLastChar (cache.getD 1 0))
    else (.ready (.ok [c]), { r.consume 1 with nextReadType := .chunkDataEnd lf })
  else (.ready (.ok [c]), (r.consume 1).updateNextReadTypeAfterChunkDataEnd)

def pollChunkDataEnd (c : UInt8) : Answer :=
  withCache r room "reader closed while reading chunk line end whitespace" (chunkDataEndIn c)

def updateNextReadTypeAfterTrailerHeader : HttpBodyReader :=
  if r.trailerLineLength = 0 then { r with nextReadType := .endOfFile }
  else { r with trailerLastChar := 0, trailerLineLength := 0, nextReadType := .trailer }

def checkTrailerHeaderLastChar (c : UInt8) : Except IoError HttpBodyReader :=
  if c ≠ lf then .error ⟨.invalidData, "invalid trailer line ending"⟩
  else .ok r.updateNextReadTypeAfterTrailerHeader

/-- `poll_trailer` on the buffered bytes `cache`. -/
def trailerIn (cache : Bytes) : Answer :=
  if r.trailerLastChar = cr then
    let nextChar := cache.headD 0
    let r := r.consume 1
    checked r [nextChar] (r.checkTrailerHeaderLastChar nextChar)
  else
    match memchr cr cache with
    | some offset =>
      let nw := offset + 1
      if r.trailerLineLength + nw ≥ r.bodyLineMaxLen then
        fail r .invalidData "trailer line too long"
      else
        let r := { r with
          trailerLastChar := cr, trailerLineLength := r.trailerLineLength + offset }
        if cache.length > nw then
          let nextChar := cache.getD nw 0
          let r := r.consume (nw + 1)
          checked r (cache.take nw ++ [nextChar]) (r.checkTrailerHeaderLastChar nextChar)
        else (.ready (.ok (cache.take nw)), r.consume nw)
    | none =>
      let nw := cache.length
      if r.trailerLineLength + nw ≥ r.bodyLineMaxLen then
        fail r .invalidData "trailer line too long"
      else
        (.ready (.ok cache), { r with
          trailerLastChar := cache.getLastD 0
          trailerLineLength := r.trailerLineLength + nw }.consume nw)

def pollTrailer : Answer :=
  withCache r room "reader closed while reading trailer" trailerIn

/-- One part of a chunked body. -/
def pollPart : Answer :=
  match r.nextReadType with
  | .chunkSize => r.pollChunkSize room
  | .fixedLength => r.pollFixed room
  | .chunkDataEnd c => r.pollChunkDataEnd room c
  | .trailer => r.pollTrailer room
  | .endOfFile | .untilEnd => fail r .other "entered unreachable code" -- `unreachable!()`

/-- The loop of `poll_chunked`. Every round but the last puts a byte into the buffer, so `cap`
    rounds fill it. -/
def pollChunkedLoop (cap : Nat) : Nat → HttpBodyReader → Bytes → Answer
  | 0, r, out => (.ready (.ok out), r)
  | n + 1, r, out =>
    if out.length ≥ cap then (.ready (.ok out), r)
    else if r.nextReadType = .endOfFile then (.ready (.ok out), { r with finished := true })
    else
      match r.pollPart (cap - out.length) with
      | (.pending, r) => (if out.length ≠ 0 then .ready (.ok out) else .pending, r)
      | (.ready (.error e), r) => (.ready (.error e), r)
      | (.ready (.ok d), r) =>
        if d.length = 0 then (.ready (.ok out), r) else pollChunkedLoop cap n r (out ++ d)

def pollChunked (cap : Nat) : Answer := pollChunkedLoop cap cap r []

/-- A read goes by the type of the body. -/
def pollRead (cap : Nat) : Answer :=
  match r.bodyType with
  | .readUntilEnd => r.pollEof cap
  | .contentLength _ =>
    if r.nextReadType = .endOfFile then (.ready (.ok []), { r with finished := true })
    else r.pollFixed cap
  | .chunked => r.pollChunked cap

end

/-! ### Answers fit the caller's buffer -/

/-- An answer that fits into `room` bytes. -/
def Answer.Within (room : Nat) (a : Answer) : Prop := ∀ d, a.1 = .ready (.ok d) → d.length ≤ room

theorem Answer.within_ok {room : Nat} {d : Bytes} {r : HttpBodyReader} (h : d.length ≤ room) :
    Answer.Within room (.ready (.ok d), r) := by
  rintro x ⟨⟩; exact h

theorem checked_within {room : Nat} {out : Bytes} {r : HttpBodyReader}
    {c : Except IoError HttpBodyReader} (h : out.length ≤ room) :
    (checked r out c).Within room := by
  cases c with
  | error e => rintro x ⟨⟩
  | ok r' => exact Answer.within_ok h

theorem withCache_within {r : HttpBodyReader} {room : Nat} {closed : String}
    {k : HttpBodyReader → Bytes → Answer} (hroom : 0 < room)
    (hk : ∀ r c, c ≠ [] → c.length ≤ room → (k r c).Within room) :
    (withCache r room closed k).Within room := by
  unfold withCache
  split
  · rintro x ⟨⟩
  · rintro x ⟨⟩
  next cache s _ =>
    split
    · rintro x ⟨⟩
    next hne =>
      refine hk _ _ (fun h0 => ?_) (length_take_le _ _)
      have := congrArg length h0
      simp only [length_take, length_nil] at this
      omega

theorem pollFixed_within (room : Nat) : (r.pollFixed room).Within room := by
  unfold pollFixed
  split
  · rintro x ⟨⟩
  · rintro x ⟨⟩
  · next d s hp =>
    have := (Source.pollRead_ok hp).2.1
    split
    · rintro x ⟨⟩
    · exact Answer.within_ok (by omega)

section

variable [AtoiRadix16] {room : Nat} {c : Bytes} (r : HttpBodyReader)

/-- The two kinds of lines are read alike. -/
theorem lineIn_within (hne : c ≠ []) (hlen : c.length ≤ room) :
    (r.chunkSizeIn c).Within room ∧ (r.trailerIn c).Within room := by
  have hpos := length_pos_iff.mpr hne
  unfold chunkSizeIn trailerIn
  constructor
  all_goals
    dsimp only
    split
    · exact checked_within (by simp; omega)
    · split
      · split
        · rintro x ⟨⟩
        · split
          · exact checked_within (by simp; omega)
          · exact Answer.within_ok (by simp; omega)
      · split
        · rintro x ⟨⟩
        · exact Answer.within_ok hlen

omit [AtoiRadix16] in
theorem chunkDataEndIn_within (e : UInt8) (r : HttpBodyReader) (hne : c ≠ [])
    (hlen : c.length ≤ room) : (chunkDataEndIn e r c).Within room := by
  have hpos := length_pos_iff.mpr hne
  unfold chunkDataEndIn
  split
  · rintro x ⟨⟩
  · split
    · split
      · exact checked_within (by simp; omega)
      · exact Answer.within_ok (by simp; omega)
    · exact Answer.within_ok (by simp; omega)

theorem pollPart_within (hroom : 0 < room) : (r.pollPart room).Within room := by
  unfold pollPart
  split
  · exact withCache_within hroom fun r _ hne hlen => (lineIn_within r hne hlen).1
  · exact pollFixed_within r room
  · exact withCache_within hroom fun r _ => chunkDataEndIn_within _ r
  · exact withCache_within hroom fun r _ hne hlen => (lineIn_within r hne hlen).2
  · rintro x ⟨⟩
  · rintro x ⟨⟩

theorem pollChunkedLoop_within {cap : Nat} : ∀ {n : Nat} (r : HttpBodyReader) {out : Bytes},
    out.length ≤ cap → (pollChunkedLoop cap n r out).Within cap
  | 0, r, out, h => Answer.within_ok h
  | n + 1, r, out, h => by
    unfold pollChunkedLoop
    split
    · exact Answer.within_ok h
    · split
      · exact Answer.within_ok h
      · have hpart := pollPart_within r (show 0 < cap - out.length by omega)
        split
        · split
          · exact Answer.within_ok h
          · rintro x ⟨⟩
        · rintro x ⟨⟩
        · next d r' hp =>
          split
          · exact Answer.within_ok h
          · have hd := hpart d (by rw [hp])
            exact pollChunkedLoop_within r' (by simp; omega)

/-- A body reader never hands over more than its caller has room for. -/
theorem pollRead_within (cap : Nat) : (r.pollRead cap).Within cap := by
  unfold pollRead
  split
  · unfold pollEof
    split
    · rintro x ⟨⟩
    · rintro x ⟨⟩
    · next d s hp =>
      have := (Source.pollRead_ok hp).2.1
      split <;> exact Answer.within_ok this
  · split
    · exact Answer.within_ok (by simp)
    · exact pollFixed_within r cap
  · exact pollChunkedLoop_within r (by simp)

instance : AsyncRead HttpBodyReader where
  pollRead := HttpBodyReader.pollRead
  pollRead_le := fun {r cap d _} h => pollRead_within r cap d (by rw [h])

end

end HttpBodyReader

end Vey.Http
