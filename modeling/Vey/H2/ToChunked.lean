import Vey.H2.RecvStream
import Vey.Http.StreamToChunked

/-! `H2StreamToChunkedTransfer`: write the rest of an HTTP/2 body as a chunked body.

        Data      top --frame--> header --written--> payload --written--> top
                   |                |
                   +--end of data --+-- "0\r\n" written
        Trailer   poll_trailers --> the fields and an empty line
        End       flush

    The CRLF behind a chunk is written with the head of the next one, and the encoder knows from
    `total_write == 0` that it has written no chunk yet. -/

namespace Vey.H2
open Schemes Http List Frame RecvStream

inductive H2StreamToChunkedTransferError where
  | writeError (e : IoError)
  | recvDataFailed (e : H2Error)
  | recvTrailerFailed (e : H2Error)

inductive TransferStage where
  | ended
  | data
  | trailer
  deriving DecidableEq

/-- Where `poll_transfer_data` is. -/
inductive TransferAt where
  | top
  | header
  | payload

/-- Writes HTTP/2 data frames as chunks. -/
structure H2StreamToChunkedTransfer (ω : Type) where
  recvStream : RecvStream
  writer : ω
  yieldSize : Nat
  thisChunkSize : Nat := 0
  chunk : Option Bytes := none
  staticHeader : Bytes := []
  staticOffset : Nat := 0
  totalWrite : Nat := 0
  copied : Nat := 0
  readDataFinished : Bool := false
  active : Bool := false
  trailerBytes : Bytes := []
  trailerOffset : Nat := 0
  transferStage : TransferStage := .data
  pc : TransferAt := .top
  copyThisRound : Nat := 0

/-- The head of a chunk of `nr` bytes; the last chunk has none. -/
def chunkHead (totalWrite nr : Nat) : Bytes :=
  if totalWrite = 0 then hexFmt nr ++ [cr, lf] else [cr, lf] ++ (hexFmt nr ++ [cr, lf])

/-- The fields of a trailer and the empty line behind them. -/
def trailerSection : Option Trailers → Bytes
  | some trailer =>
    (trailer.flatMap fun f => f.name ++ ascii ": " ++ f.value ++ [cr, lf]) ++ [cr, lf]
  | none => [cr, lf]

namespace H2StreamToChunkedTransfer

variable {ω : Type} (recvStream : RecvStream)

def new (writer : ω) (yieldSize : Nat) : H2StreamToChunkedTransfer ω where
  recvStream := recvStream
  writer := writer
  yieldSize := yieldSize

def withChunk (writer : ω) (yieldSize : Nat) (chunk : Bytes) : H2StreamToChunkedTransfer ω where
  recvStream := recvStream
  writer := writer
  yieldSize := yieldSize
  thisChunkSize := chunk.length
  chunk := some chunk
  staticHeader := hexFmt chunk.length ++ [cr, lf]

def withoutData (writer : ω) : H2StreamToChunkedTransfer ω where
  recvStream := recvStream
  writer := writer
  yieldSize := 0
  readDataFinished := true
  transferStage := .trailer

section

variable (s : H2StreamToChunkedTransfer ω)

def addCopied (n : Nat) : H2StreamToChunkedTransfer ω :=
  { s with copied := s.copied + n }

/-- A new poll. -/
def enter : H2StreamToChunkedTransfer ω :=
  { s with pc := .top, copyThisRound := 0 }

/-- The error of a writer that takes nothing. -/
def zeroByteWritten : H2StreamToChunkedTransferError :=
  .writeError ⟨.writeZero, "zero byte written out"⟩

abbrev Step (ω : Type) :=
  Ctrl (H2StreamToChunkedTransfer ω) (Poll (Except H2StreamToChunkedTransferError Nat))

/-- A chunk is open, or the last one if there is no data. -/
def openChunk (data : Option Bytes) : H2StreamToChunkedTransfer ω :=
  { s with
    recvStream := recvStream
    active := true
    readDataFinished := data.isNone
    staticHeader := chunkHead s.totalWrite (data.getD []).length
    staticOffset := 0
    thisChunkSize := (data.getD []).length
    chunk := data
    pc := .header }

/-- The stream was polled, but no chunk is open. -/
def polled (active : Bool) : H2StreamToChunkedTransfer ω :=
  { s with recvStream := recvStream, active := active }

/-- The head of the loop: take the next frame when no chunk is open. -/
def nextChunk : Step ω :=
  if s.chunk = none ∧ s.readDataFinished = false then
    match s.recvStream.pollData with
    | (.pending, r) => .ret .pending (s.polled r s.active)
    | (.ready (some (.error e)), r) =>
      .ret (.ready (.error (.recvDataFailed e))) (s.polled r s.active)
    | (.ready none, r) => .next (s.openChunk r none)
    | (.ready (some (.ok f)), r) =>
      if f.data = [] then .next (s.polled r true)
      else match f.release with
        | .error e => .ret (.ready (.error (.recvDataFailed e))) (s.polled r true)
        | .ok _ => .next (s.openChunk r (some f.data))
  else .next { s with pc := .header }

def wroteHeader (nw : Nat) (w : ω) : H2StreamToChunkedTransfer ω :=
  { s with
    writer := w
    active := true
    staticOffset := s.staticOffset + nw
    totalWrite := s.totalWrite + nw }

def wroteChunk (chunk : Bytes) (nw : Nat) (w : ω) : H2StreamToChunkedTransfer ω :=
  { s with
    writer := w
    totalWrite := s.totalWrite + nw
    copied := s.copied + nw
    copyThisRound := s.copyThisRound + nw
    active := true
    chunk := if chunk.drop nw = [] then none else some (chunk.drop nw) }

def wroteTrailer (nw : Nat) (w : ω) : H2StreamToChunkedTransfer ω :=
  { s with
    writer := w
    active := true
    trailerOffset := s.trailerOffset + nw
    totalWrite := s.totalWrite + nw }

end

variable [AsyncWrite ω] (s : H2StreamToChunkedTransfer ω)

def sendHeader : Step ω :=
  if s.staticOffset < s.staticHeader.length then
    writeStep s.writer (s.staticHeader.drop s.staticOffset) .writeError zeroByteWritten
      (fun w => { s with writer := w }) s.wroteHeader
  else if s.readDataFinished then .next { s with transferStage := .trailer }
  else .next { s with pc := .payload }

def sendChunk : Step ω :=
  match s.chunk with
  | some chunk =>
    writeStep s.writer chunk .writeError zeroByteWritten (fun w => { s with writer := w })
      (s.wroteChunk chunk)
  | none =>
    if s.yieldSize ≤ s.copyThisRound then .ret .pending s else .next { s with pc := .top }

def pollTransferTrailers : Step ω :=
  if s.trailerBytes ≠ [] then
    if s.trailerOffset < s.trailerBytes.length then
      writeStep s.writer (s.trailerBytes.drop s.trailerOffset) .writeError zeroByteWritten
        (fun w => { s with writer := w }) s.wroteTrailer
    else .next { s with transferStage := .ended }
  else
    match s.recvStream.pollTrailers with
    | (.pending, r) => .ret .pending { s with recvStream := r }
    | (.ready (.error e), r) =>
      .ret (.ready (.error (.recvTrailerFailed e))) { s with recvStream := r }
    | (.ready (.ok trailer), r) =>
      .next { s with recvStream := r, active := true, trailerBytes := trailerSection trailer }

def pollFlushEnd : Step ω :=
  flushStep s.writer .writeError (fun w => { s with writer := w }) s.totalWrite

/-- One step of `poll_transfer`. -/
def pollTransfer : Step ω :=
  match s.transferStage with
  | .data =>
    match s.pc with
    | .top => s.nextChunk
    | .header => s.sendHeader
    | .payload => s.sendChunk
  | .trailer => s.pollTransferTrailers
  | .ended => s.pollFlushEnd

def future (ω : Type) [AsyncWrite ω] :
    Future (H2StreamToChunkedTransfer ω) (Except H2StreamToChunkedTransferError Nat) :=
  ⟨enter, pollTransfer⟩

end H2StreamToChunkedTransfer

/-! ### The text of a chunked body -/

section

variable [AtoiRadix16]

/-- The head of a chunk leads to its payload, the one of the last chunk to the trailer. -/
theorem feed_chunkHead {nr : Nat} (hn : nr < 2 ^ 64) (total : Nat) (d : Bytes) :
    feed sizeOf ⟨if total = 0 then .sizeLine [] else .dataCr, d⟩ (chunkHead total nr) =
      ⟨afterSize (some nr), d⟩ := by
  rw [chunkHead]
  split
  · exact feed_hexFmt hn d
  · rw [feed_dataCr]
    exact feed_hexFmt hn d

theorem feed_field (f : HeaderField) (d : Bytes) :
    feed sizeOf ⟨.trailer 0, d⟩ (f.name ++ ascii ": " ++ f.value ++ [cr, lf]) =
      ⟨.trailer 0, d⟩ := by
  have hline : cr ∉ f.name ++ ascii ": " ++ f.value := by
    have hsep : cr ∉ ascii ": " := by decide
    simp only [mem_append, not_or]
    exact ⟨⟨f.name_line, hsep⟩, f.value_line⟩
  have hlen : (f.name ++ ascii ": " ++ f.value).length ≠ 0 := by
    have hsep : (ascii ": ").length = 2 := by decide
    simp only [length_append, hsep]
    omega
  rw [feed_append, feed_trailer hline, Nat.zero_add]
  generalize (f.name ++ ascii ": " ++ f.value).length = n at hlen
  simp [step, hlen]

/-- The trailer section ends the body. -/
theorem feed_trailerSection (t : Option Trailers) (d : Bytes) :
    feed sizeOf ⟨.trailer 0, d⟩ (trailerSection t) = ⟨.done, d⟩ := by
  have hfields : ∀ fields : Trailers, feed sizeOf ⟨.trailer 0, d⟩
      (fields.flatMap fun f => f.name ++ ascii ": " ++ f.value ++ [cr, lf]) = ⟨.trailer 0, d⟩ := by
    intro fields
    induction fields with
    | nil => rfl
    | cons f fields ih => rw [flatMap_cons, feed_append, feed_field, ih]
  cases t with
  | none => exact feed_trailer_crlf d
  | some fields =>
    rw [trailerSection, feed_append, hfields]
    exact feed_trailer_crlf d

/-- The bytes are one chunked body with this payload and this trailer. -/
def IsChunked (trailers : TrailersResult) (body log : Bytes) : Prop :=
  ∃ t data, trailers = .ok t ∧ log = data ++ trailerSection t ∧
    Frame.feed sizeOf Frame.start data = ⟨.trailer 0, body⟩

theorem IsChunked.feed {trailers : TrailersResult} {body log : Bytes}
    (h : IsChunked trailers body log) : feed sizeOf start log = ⟨.done, body⟩ := by
  obtain ⟨t, data, -, rfl, hdata⟩ := h
  rw [feed_append, hdata, feed_trailerSection]

end

/-! ### The transfer is lossless -/

namespace H2StreamToChunkedTransfer

variable [AtoiRadix16] {ω : Type} {front all sent : Bytes} {copied₀ : Nat}
  {trailers : TrailersResult} {s : H2StreamToChunkedTransfer (Tapped ω)}

/-- What is left of the head of the open chunk. -/
def headLeft {ω : Type} (s : H2StreamToChunkedTransfer ω) : Bytes :=
  s.staticHeader.drop s.staticOffset

/-- Where the framing of the output is once the head of the open chunk is written. -/
def outSt {ω : Type} (s : H2StreamToChunkedTransfer ω) : FrameSt :=
  if s.readDataFinished then .trailer 0
  else match s.chunk with
    | some c => .data c.length
    | none => if s.totalWrite = 0 then .sizeLine [] else .dataCr

/-- What was written, with the rest of what is about to be, carries the payload. -/
def Framed (payload : Bytes) (trailers : TrailersResult)
    (s : H2StreamToChunkedTransfer (Tapped ω)) : Prop :=
  match s.transferStage with
  | .data => s.trailerBytes = [] ∧
      Frame.feed sizeOf Frame.start (s.writer.log ++ s.headLeft) = ⟨s.outSt, payload⟩
  | .trailer =>
    if s.trailerBytes = [] then Frame.feed sizeOf Frame.start s.writer.log = ⟨.trailer 0, payload⟩
    else IsChunked trailers payload (s.writer.log ++ s.trailerBytes.drop s.trailerOffset)
  | .ended => IsChunked trailers payload s.writer.log

variable (front copied₀ trailers)

/-- The transfer has written `sent` behind a payload `front`, and `copied₀` was counted before. -/
structure Encodes (sent : Bytes) (s : H2StreamToChunkedTransfer (Tapped ω)) : Prop where
  copied : s.copied = copied₀ + sent.length
  framed : s.Framed (front ++ sent) trailers
  trailers : s.recvStream.trailers = trailers
  offset : s.trailerBytes = [] → s.trailerOffset = 0
  chunk : s.chunk ≠ some []
  fin : s.readDataFinished = true → s.chunk = none ∧ s.recvStream.arrivals = []
  stage : s.transferStage ≠ .data → s.readDataFinished = true
  idle : s.readDataFinished = false → s.chunk = none → s.headLeft = []
  opened : s.pc = .header → s.readDataFinished = false → s.chunk ≠ none
  payload : s.transferStage = .data → s.pc = .payload → s.readDataFinished = false ∧ s.headLeft = []

/-- The payload written so far, the open chunk and the unread stream are the body. -/
def Inv (all : Bytes) (s : H2StreamToChunkedTransfer (Tapped ω)) : Prop :=
  ∃ sent, sent ++ s.chunk.getD [] ++ s.recvStream.body = all ∧
    s.Encodes front copied₀ trailers sent

/-- The whole body is written. -/
def Encoded (all : Bytes) (_ : Nat) (s : H2StreamToChunkedTransfer (Tapped ω)) : Prop :=
  IsChunked trailers (front ++ all) s.writer.log ∧ s.copied = copied₀ + all.length

variable {front copied₀ trailers} {payload : Bytes} {w : Tapped ω}

/-- A writer that took nothing. -/
theorem Framed.put (h : s.Framed payload trailers) (hlog : w.log = s.writer.log) :
    Framed payload trailers { s with writer := w } := by
  rw [Framed] at h ⊢
  dsimp only [headLeft, outSt] at h ⊢
  rw [hlog]
  exact h

theorem Inv.put (h : s.Inv front copied₀ trailers all) (hlog : w.log = s.writer.log) :
    Inv front copied₀ trailers all { s with writer := w } := by
  obtain ⟨sent, hin, henc⟩ := h
  exact ⟨sent, hin, { henc with framed := henc.framed.put hlog }⟩

theorem Inv.enter (h : s.Inv front copied₀ trailers all) : s.enter.Inv front copied₀ trailers all := by
  obtain ⟨sent, hin, henc⟩ := h
  exact ⟨sent, hin, { henc with opened := nofun, payload := nofun }⟩

section

variable (hstage : s.transferStage = .data)

include hstage

/-- The framing of a transfer that reads data. -/
theorem Framed.feed (h : s.Framed payload trailers) :
    s.trailerBytes = [] ∧
      feed sizeOf start (s.writer.log ++ s.headLeft) = ⟨s.outSt, payload⟩ := by
  rw [Framed, hstage] at h
  exact h

theorem framed_data (htr : s.trailerBytes = [])
    (hfeed : feed sizeOf start (s.writer.log ++ s.headLeft) = ⟨s.outSt, payload⟩) :
    s.Framed payload trailers := by
  rw [Framed, hstage]
  exact ⟨htr, hfeed⟩

/-- The next chunk, or the last one at the end of the stream. -/
theorem openChunk_inv (henc : s.Encodes front copied₀ trailers sent) (hchunk : s.chunk = none)
    (hrf : s.readDataFinished = false) {r : RecvStream} {data : Option Bytes}
    (hin : sent ++ data.getD [] ++ r.body = all) (hdata : data ≠ some [])
    (hfits : (data.getD []).length < 2 ^ 64) (hend : data = none → r.arrivals = [])
    (htr : r.trailers = trailers) : (s.openChunk r data).Inv front copied₀ trailers all := by
  obtain ⟨htb, hfeed⟩ := henc.framed.feed hstage
  rw [henc.idle hrf hchunk, append_nil, outSt, hrf, hchunk] at hfeed
  refine ⟨sent, hin, henc.copied, ?_, htr, henc.offset, hdata, ?_, ?_, ?_, ?_, nofun⟩
  · refine framed_data hstage htb ?_
    have hhead : (s.openChunk r data).headLeft = chunkHead s.totalWrite (data.getD []).length := rfl
    have hlog : (s.openChunk r data).writer.log = s.writer.log := rfl
    rw [hhead, hlog, feed_append, hfeed]
    refine (feed_chunkHead hfits s.totalWrite _).trans ?_
    cases hd : data with
    | none => rfl
    | some c =>
      have hpos : c ≠ [] := fun hc => hdata (hd.trans (congrArg some hc))
      obtain ⟨x, xs, rfl⟩ := exists_cons_of_ne_nil hpos
      rfl
  · intro hfin
    cases hd : data with
    | none => exact ⟨rfl, hend hd⟩
    | some c => rw [hd] at hfin; cases hfin
  · exact fun hne => absurd hstage hne
  · intro hfin hnone
    rw [openChunk] at hfin hnone
    rw [show data = none from hnone] at hfin
    cases hfin
  · intro _ hfin hnone
    rw [openChunk] at hfin hnone
    rw [show data = none from hnone] at hfin
    cases hfin

theorem nextChunk_ensures (h : s.Inv front copied₀ trailers all) :
    s.nextChunk.Ensures (Inv front copied₀ trailers all) (Encoded front copied₀ trailers all) := by
  obtain ⟨sent, hin, henc⟩ := h
  rw [nextChunk]
  split
  next hc =>
    obtain ⟨hchunk, hrf⟩ := hc
    rw [hchunk, Option.getD_none, append_nil] at hin
    -- the stream without what was polled from it
    have hskip : ∀ {as : List FrameArrival} (active : Bool),
        s.recvStream.body = body { s.recvStream with arrivals := as } →
        (s.polled { s.recvStream with arrivals := as } active).Inv front copied₀ trailers all := by
      intro as active hbody
      refine ⟨sent, ?_, { henc with fin := fun hfin => ?_ }⟩
      · rw [polled, hchunk, Option.getD_none, append_nil, ← hin, hbody]
      · exact absurd (hrf.symm.trans hfin) Bool.false_ne_true
    rcases s.recvStream.pollData_cases with
      ⟨hs, hp⟩ | ⟨as, hs, hp⟩ | ⟨e, as, hs, hp⟩ | ⟨f, as, hs, hp⟩ <;> rw [hp]
    · refine openChunk_inv hstage henc hchunk hrf ?_ nofun (by decide) (fun _ => hs) henc.trailers
      rw [Option.getD_none, append_nil, hin]
    · exact hskip s.active (body_stall hs)
    · exact trivial
    · have hbody := body_data hs
      dsimp only
      split
      next hnil =>
        rw [hnil, nil_append] at hbody
        exact hskip true hbody
      next hne =>
        split
        next => exact trivial
        next =>
          refine openChunk_inv hstage henc hchunk hrf ?_ (fun he => hne (Option.some.inj he)) f.fits
            nofun henc.trailers
          rw [Option.getD_some, append_assoc, ← hbody, hin]
  next hc =>
    refine ⟨sent, hin, { henc with opened := fun _ hrf hnone => hc ⟨hnone, hrf⟩, payload := nofun }⟩

end

variable [AsyncWrite ω]

section
variable (h : s.Inv front copied₀ trailers all)
include h

theorem sendHeader_ensures
    (hstage : s.transferStage = .data) (hpc : s.pc = .header) :
    s.sendHeader.Ensures (Inv front copied₀ trailers all) (Encoded front copied₀ trailers all) := by
  rw [sendHeader]
  split
  next hlt =>
    refine writeStep_ensures (fun hlog => h.put hlog) fun {n w} hpos hle hlog => ?_
    obtain ⟨sent, hin, henc⟩ := h
    obtain ⟨htb, hfeed⟩ := henc.framed.feed hstage
    have hopen := henc.opened hpc
    have hleft : (s.wroteHeader n w).writer.log ++ (s.wroteHeader n w).headLeft =
        s.writer.log ++ s.headLeft := by
      have hdrop : (s.wroteHeader n w).headLeft = s.headLeft.drop n := by
        rw [headLeft, headLeft, drop_drop]
        rfl
      rw [hdrop, show (s.wroteHeader n w).writer.log = w.log from rfl, hlog, append_assoc]
      exact congrArg (s.writer.log ++ ·) (take_append_drop n s.headLeft)
    have hout : (s.wroteHeader n w).outSt = s.outSt := by
      rw [outSt, outSt]
      cases hrf : s.readDataFinished with
      | true => simp [wroteHeader, hrf]
      | false =>
        obtain ⟨c, hc⟩ := Option.ne_none_iff_exists'.mp (hopen hrf)
        simp [wroteHeader, hrf, hc]
    refine ⟨sent, hin, { henc with framed := ?_, idle := ?_, payload := ?_ }⟩
    · exact framed_data hstage htb (by rw [hleft, hout]; exact hfeed)
    · exact fun hrf hnone => absurd hnone (hopen hrf)
    · exact fun _ hp => absurd (hpc.symm.trans hp) nofun
  next hge =>
    obtain ⟨sent, hin, henc⟩ := h
    obtain ⟨htb, hfeed⟩ := henc.framed.feed hstage
    have hnil : s.headLeft = [] := drop_eq_nil_of_le (Nat.le_of_not_lt hge)
    split
    next hrf =>
      refine ⟨sent, hin, { henc with framed := ?_, stage := fun _ => hrf, payload := nofun }⟩
      rw [hnil, append_nil, outSt, if_pos hrf] at hfeed
      simp only [Framed, htb]
      exact hfeed
    next hrf =>
      have hrf := Bool.not_eq_true _ ▸ hrf
      exact ⟨sent, hin, { henc with
        framed := framed_data hstage htb hfeed
        opened := nofun
        payload := fun _ _ => ⟨hrf, hnil⟩ }⟩

theorem sendChunk_ensures
    (hstage : s.transferStage = .data) (hpc : s.pc = .payload) :
    s.sendChunk.Ensures (Inv front copied₀ trailers all) (Encoded front copied₀ trailers all) := by
  rw [sendChunk]
  split
  next chunk hchunk =>
    refine writeStep_ensures (fun hlog => h.put hlog) fun {n w} hpos hle hlog => ?_
    obtain ⟨sent, hin, henc⟩ := h
    obtain ⟨htb, hfeed⟩ := henc.framed.feed hstage
    obtain ⟨hrf, hnil⟩ := henc.payload hstage hpc
    have hlen : 0 < chunk.length := by omega
    rw [hnil, append_nil, outSt, hrf, hchunk] at hfeed
    have hget : (s.wroteChunk chunk n w).chunk.getD [] = chunk.drop n := by
      rw [wroteChunk]
      split
      next hd => rw [hd, Option.getD_none]
      next => rfl
    refine ⟨sent ++ chunk.take n, ?_, ?_, ?_, henc.trailers, henc.offset, ?_, ?_, henc.stage,
      ?_, ?_, ?_⟩
    · rw [hget, append_assoc sent, take_append_drop, ← hin, hchunk]
      rfl
    · rw [length_append, length_take, Nat.min_eq_left hle, ← Nat.add_assoc, ← henc.copied]
      rfl
    · refine framed_data hstage htb ?_
      have hhead : (s.wroteChunk chunk n w).headLeft = [] := hnil
      have hout : (s.wroteChunk chunk n w).outSt = dataSt (chunk.length - n) := by
        rw [outSt, wroteChunk, if_neg (by simp [hrf]), dataSt]
        by_cases hd : chunk.drop n = []
        · have : chunk.length ≤ n := drop_eq_nil_iff.mp hd
          simp only [hd, if_true]
          rw [if_neg (by omega), if_pos (by omega)]
        · have hlt : n < chunk.length := by
            rw [drop_eq_nil_iff] at hd
            omega
          simp only [hd, if_false, length_drop]
          rw [if_neg (by omega)]
      rw [hhead, hout, append_nil, show (s.wroteChunk chunk n w).writer.log = w.log from rfl,
        hlog, feed_append, hfeed, ← append_assoc]
      have htake : (chunk.take n).length = n := by
        rw [length_take, Nat.min_eq_left hle]
      simp only [Bool.false_eq_true, if_false]
      rw [feed_data (by omega) hlen, htake]
    · rw [wroteChunk]
      split
      · simp
      next hd => exact fun he => hd (Option.some.inj he)
    · exact fun hfin => absurd (hrf.symm.trans hfin) Bool.false_ne_true
    · exact fun _ _ => hnil
    · exact fun hp => absurd (hpc.symm.trans hp) (by simp)
    · exact fun _ _ => ⟨hrf, hnil⟩
  next hchunk =>
    split
    · exact h
    · obtain ⟨sent, hin, henc⟩ := h
      exact ⟨sent, hin, { henc with opened := by simp, payload := by simp }⟩

theorem pollTransferTrailers_ensures
    (hstage : s.transferStage = .trailer) :
    s.pollTransferTrailers.Ensures (Inv front copied₀ trailers all)
      (Encoded front copied₀ trailers all) := by
  rw [pollTransferTrailers]
  split
  next htb =>
    split
    next hlt =>
      refine writeStep_ensures (fun hlog => h.put hlog) fun {n w} hpos hle hlog => ?_
      obtain ⟨sent, hin, henc⟩ := h
      refine ⟨sent, hin, { henc with framed := ?_, offset := fun hnil => absurd hnil htb }⟩
      have hframed := henc.framed
      simp only [Framed, hstage, if_neg htb, wroteTrailer] at hframed ⊢
      rw [hlog, append_assoc, ← drop_drop, take_append_drop]
      exact hframed
    next hge =>
      obtain ⟨sent, hin, henc⟩ := h
      refine ⟨sent, hin, { henc with
        framed := ?_, stage := fun _ => henc.stage (by rw [hstage]; nofun), payload := nofun }⟩
      have hframed := henc.framed
      simp only [Framed, hstage, if_neg htb] at hframed ⊢
      rwa [drop_eq_nil_of_le (Nat.le_of_not_lt hge), append_nil] at hframed
  next htb =>
    have htb : s.trailerBytes = [] := not_not.mp htb
    obtain ⟨sent, hin, henc⟩ := h
    obtain ⟨hchunk, harr⟩ := henc.fin (henc.stage (by rw [hstage]; nofun))
    have hframed := henc.framed
    simp only [Framed, hstage, if_pos htb] at hframed
    rcases pollTrailers_cases harr with ⟨n, -, hp⟩ | ⟨-, hp⟩ <;> rw [hp]
    · refine ⟨sent, hin, { henc with framed := ?_ }⟩
      simp only [Framed, hstage, if_pos htb]
      exact hframed
    · cases ht : s.recvStream.trailers with
      | error e => exact trivial
      | ok t =>
        have hne : trailerSection t ≠ [] := by
          cases t <;> simp [trailerSection]
        refine ⟨sent, hin, { henc with framed := ?_, offset := fun hnil => absurd hnil hne }⟩
        simp only [Framed, hstage, if_neg hne, henc.offset htb]
        exact ⟨t, s.writer.log, henc.trailers.symm.trans ht, rfl, hframed⟩

/-- One step of `poll_transfer`: nothing is lost, and at the end the output is one chunked body. -/
theorem pollTransfer_ensures :
    s.pollTransfer.Ensures (Inv front copied₀ trailers all)
      (Encoded front copied₀ trailers all) := by
  rw [pollTransfer.eq_def]
  cases hstage : s.transferStage with
  | data =>
    cases hpc : s.pc with
    | top => exact nextChunk_ensures hstage h
    | header => exact sendHeader_ensures h hstage hpc
    | payload => exact sendChunk_ensures h hstage hpc
  | trailer => exact pollTransferTrailers_ensures h hstage
  | ended =>
    refine flushStep_ensures (fun hlog => h.put hlog) fun {w} hlog => ?_
    obtain ⟨sent, hin, henc⟩ := h
    obtain ⟨hchunk, harr⟩ := henc.fin (henc.stage (by rw [hstage]; nofun))
    have hframed := henc.framed
    rw [Framed, hstage] at hframed
    rw [hchunk, body_nil harr, Option.getD_none, append_nil, append_nil] at hin
    rw [← hin]
    exact ⟨hlog ▸ hframed, henc.copied⟩

end

end H2StreamToChunkedTransfer

/-! ### The transfer gets ready -/

namespace H2StreamToChunkedTransfer

/-- What a frame leads to: its payload, its head and itself. -/
def weight : FrameArrival → Nat
  | .data f => f.data.length + (chunkHead 1 f.data.length).length + 1
  | _ => 1

/-- What is ahead of the trailer stage. -/
def trailerWork (r : RecvStream) : Nat :=
  r.trailerStalls + match r.trailers with
    | .ok t => (trailerSection t).length
    | .error _ => 0

/-- What is ahead of the end of the data. -/
def lastWork (readDataFinished : Bool) : Nat :=
  if readDataFinished then 0 else (chunkHead 1 0).length + 1

def work {ω : Type} (s : H2StreamToChunkedTransfer ω) : Nat :=
  match s.transferStage with
  | .data => (s.recvStream.arrivals.map weight).sum + s.headLeft.length +
      (s.chunk.getD []).length + lastWork s.readDataFinished + trailerWork s.recvStream + 3
  | .trailer =>
    if s.trailerBytes = [] then trailerWork s.recvStream + 2
    else (s.trailerBytes.drop s.trailerOffset).length + 1
  | .ended => 0

/-- How many steps may be next that neither read nor write. -/
def phase {ω : Type} (s : H2StreamToChunkedTransfer ω) : Nat :=
  match s.transferStage, s.pc with
  | .data, .top => 3
  | .data, .header => 2
  | .data, .payload => if s.chunk = none then 4 else 1
  | _, _ => 0

theorem work_data {ω : Type} {s : H2StreamToChunkedTransfer ω} (h : s.transferStage = .data) :
    s.work = (s.recvStream.arrivals.map weight).sum + s.headLeft.length +
      (s.chunk.getD []).length + lastWork s.readDataFinished + trailerWork s.recvStream + 3 := by
  rw [work, h]

theorem chunkHead_le (total nr : Nat) : (chunkHead total nr).length ≤ (chunkHead 1 nr).length := by
  rw [chunkHead]
  split <;> simp [chunkHead]

variable {ω : Type} [FairFlush ω] {s : H2StreamToChunkedTransfer (Tapped ω)}

def effort (s : H2StreamToChunkedTransfer (Tapped ω)) : Effort where
  work := s.work
  stalls := match s.transferStage with
    | .ended => FairFlush.flushStalls s.writer
    | _ => FairWrite.stalls s.writer
  phase := s.phase

/-- A write that stalls lowers the stalls that are left. -/
theorem less_of_stall {w : Tapped ω} (hstage : s.transferStage ≠ .ended)
    (h : FairWrite.stalls w < FairWrite.stalls s.writer) :
    (effort (enter { s with writer := w })).Less s.effort := by
  refine .inr ⟨le_refl _, .inl ?_⟩
  simp only [effort, enter]
  cases hs : s.transferStage with
  | ended => exact absurd hs hstage
  | data => exact h
  | trailer => exact h

theorem nextChunk_lowers (hsound : s.recvStream.Sound) (hstage : s.transferStage = .data)
    (hpc : s.pc = .top) : (future (Tapped ω)).Lowers effort s s.nextChunk := by
  rw [nextChunk]
  split
  next hc =>
    obtain ⟨hchunk, hrf⟩ := hc
    have hwork := work_data hstage
    rw [hchunk, hrf] at hwork
    -- every answer of the stream lowers the work
    have hopen : ∀ r data, (s.openChunk r data).work = (r.arrivals.map weight).sum +
        (chunkHead s.totalWrite (data.getD []).length).length + (data.getD []).length +
        lastWork data.isNone + trailerWork r + 3 :=
      fun r data => work_data (s := s.openChunk r data) hstage
    have hskip : ∀ {a as} active, s.recvStream.arrivals = a :: as →
        (s.polled { s.recvStream with arrivals := as } active).work < s.work := by
      intro a as active hs
      have hpos : 0 < weight a := by cases a <;> simp [weight]
      rw [work_data (s := s.polled _ active) hstage, hwork, hs, map_cons, sum_cons]
      simp only [headLeft, polled, trailerWork, hchunk, hrf]
      omega
    rcases s.recvStream.pollData_cases with
      ⟨hs, hp⟩ | ⟨as, hs, hp⟩ | ⟨e, as, hs, hp⟩ | ⟨f, as, hs, hp⟩ <;> rw [hp]
    · left
      have hle := chunkHead_le s.totalWrite 0
      change (s.openChunk s.recvStream none).work < s.work
      rw [hopen, hwork]
      simp only [Option.getD_none, length_nil, Option.isNone_none, lastWork, if_true,
        Bool.false_eq_true, if_false]
      omega
    · exact .inl (hskip s.active hs)
    · exact absurd (hs ▸ mem_cons_self) (hsound.1 e)
    · dsimp only
      rw [hsound.2.1 f (hs ▸ mem_cons_self)]
      split
      · exact .inl (hskip true hs)
      · left
        have hle := chunkHead_le s.totalWrite f.data.length
        change (s.openChunk { s.recvStream with arrivals := as } (some f.data)).work < s.work
        rw [hopen, hwork, hs]
        simp only [map_cons, sum_cons, weight, trailerWork, Option.getD_some,
          Option.getD_none, Option.isNone_some, length_nil]
        omega
  next hc =>
    refine .inr ⟨le_refl _, .inr ⟨le_refl _, ?_⟩⟩
    simp only [effort, phase, hstage, hpc]
    omega

theorem sendHeader_lowers (hstage : s.transferStage = .data) (hpc : s.pc = .header)
    (hopen : s.readDataFinished = false → s.chunk ≠ none) (htb : s.trailerBytes = [])
    (hfin : s.readDataFinished = true → s.chunk = none ∧ s.recvStream.arrivals = []) :
    (future (Tapped ω)).Lowers effort s s.sendHeader := by
  have hne : s.transferStage ≠ .ended := by rw [hstage]; nofun
  rw [sendHeader]
  split
  next hlt =>
    refine Future.writeStep_lowers (ne_nil_of_length_pos (by rw [length_drop]; omega))
      (less_of_stall hne) fun {n w} hpos hle => ?_
    left
    change (s.wroteHeader n w).work < s.work
    rw [work_data hstage, work_data (s := s.wroteHeader n w) hstage]
    simp only [headLeft, wroteHeader, length_drop] at hle ⊢
    omega
  next hge =>
    have hnil : s.headLeft = [] := drop_eq_nil_of_le (Nat.le_of_not_lt hge)
    split
    next hrf =>
      left
      obtain ⟨hchunk, harr⟩ := hfin hrf
      change work { s with transferStage := .trailer } < s.work
      rw [work_data hstage, hnil, hchunk, harr, hrf]
      simp only [work, htb, if_true, map_nil, sum_nil, length_nil,
        Option.getD_none]
      omega
    next hrf =>
      have hchunk := hopen (Bool.not_eq_true _ ▸ hrf)
      refine .inr ⟨le_refl _, .inr ⟨le_refl _, ?_⟩⟩
      simp only [effort, phase, hstage, hpc, if_neg hchunk]
      omega

theorem sendChunk_lowers (hstage : s.transferStage = .data) (hpc : s.pc = .payload)
    (hfull : s.chunk ≠ some []) : (future (Tapped ω)).Lowers effort s s.sendChunk := by
  have hne : s.transferStage ≠ .ended := by rw [hstage]; nofun
  rw [sendChunk]
  split
  next chunk hchunk =>
    refine Future.writeStep_lowers (fun hnil => hfull (hchunk.trans (congrArg some hnil)))
      (less_of_stall hne) fun {n w} hpos hle => ?_
    left
    have hget : ((s.wroteChunk chunk n w).chunk.getD []).length = chunk.length - n := by
      rw [wroteChunk, ← length_drop]
      split
      next hd => rw [hd, Option.getD_none]
      next => rfl
    change (s.wroteChunk chunk n w).work < s.work
    rw [work_data hstage, work_data (s := s.wroteChunk chunk n w) hstage, hget, hchunk]
    simp only [headLeft, wroteChunk, Option.getD_some]
    omega
  next hchunk =>
    have hless : phase { s with pc := .top } < s.phase := by
      simp only [phase, hstage, hpc, hchunk, if_true]
      omega
    split <;> exact .inr ⟨le_refl _, .inr ⟨le_refl _, hless⟩⟩

theorem pollTransferTrailers_lowers (hsound : s.recvStream.Sound)
    (harr : s.recvStream.arrivals = []) (hstage : s.transferStage = .trailer)
    (hoff : s.trailerBytes = [] → s.trailerOffset = 0) :
    (future (Tapped ω)).Lowers effort s s.pollTransferTrailers := by
  have hne : s.transferStage ≠ .ended := by rw [hstage]; nofun
  rw [pollTransferTrailers]
  split
  next htb =>
    have hwork : s.work = (s.trailerBytes.drop s.trailerOffset).length + 1 := by
      rw [work, hstage]
      exact if_neg htb
    split
    next hlt =>
      refine Future.writeStep_lowers (ne_nil_of_length_pos (by rw [length_drop]; omega))
        (less_of_stall hne) fun {n w} hpos hle => ?_
      left
      change (s.wroteTrailer n w).work < s.work
      rw [hwork]
      simp only [work, wroteTrailer, hstage, if_neg htb, length_drop] at hle ⊢
      omega
    next =>
      left
      change 0 < s.work
      rw [hwork]
      exact Nat.succ_pos _
  next htb =>
    have htb : s.trailerBytes = [] := not_not.mp htb
    have hwork : s.work = trailerWork s.recvStream + 2 := by
      rw [work, hstage]
      exact if_pos htb
    obtain ⟨t, ht⟩ := hsound.2.2
    rcases pollTrailers_cases harr with ⟨n, hn, hp⟩ | ⟨-, hp⟩ <;> rw [hp]
    · left
      change work { s with recvStream := { s.recvStream with trailerStalls := n } } < s.work
      rw [hwork]
      simp only [work, hstage, htb, if_true, trailerWork, hn]
      omega
    · rw [ht]
      left
      change work { s with active := true, trailerBytes := trailerSection t } < s.work
      have hne : trailerSection t ≠ [] := by cases t <;> simp [trailerSection]
      rw [hwork]
      simp only [work, hstage, if_neg hne, hoff htb, drop_zero, trailerWork, ht]
      omega

theorem pollTransfer_lowers [AtoiRadix16] {front all : Bytes} {copied₀ : Nat}
    {trailers : TrailersResult} (h : s.Inv front copied₀ trailers all)
    (hsound : s.recvStream.Sound) : (future (Tapped ω)).Lowers effort s s.pollTransfer := by
  obtain ⟨sent, -, henc⟩ := h
  rw [pollTransfer.eq_def]
  cases hstage : s.transferStage with
  | data =>
    cases hpc : s.pc with
    | top => exact nextChunk_lowers hsound hstage hpc
    | header =>
      exact sendHeader_lowers hstage hpc (henc.opened hpc) (henc.framed.feed hstage).1 henc.fin
    | payload => exact sendChunk_lowers hstage hpc henc.chunk
  | trailer =>
    have hrf := henc.stage (by rw [hstage]; nofun)
    exact pollTransferTrailers_lowers hsound (henc.fin hrf).2 hstage henc.offset
  | ended =>
    refine Future.flushStep_lowers fun {w} hless => ?_
    refine .inr ⟨le_refl _, .inl ?_⟩
    simp only [effort, hstage, future]
    exact hless

theorem nextChunk_sound {ω : Type} {s : H2StreamToChunkedTransfer ω} (h : s.recvStream.Sound) :
    s.nextChunk.state.recvStream.Sound := by
  rw [nextChunk]
  split
  · rcases s.recvStream.pollData_cases with
      ⟨hs, hp⟩ | ⟨as, hs, hp⟩ | ⟨e, as, hs, hp⟩ | ⟨f, as, hs, hp⟩ <;> rw [hp]
    · exact h
    · exact h.tail hs
    · exact h.tail hs
    · dsimp only
      split
      · exact h.tail hs
      · split <;> exact h.tail hs
  · exact h

/-- A step leaves the stream as sound as it was. -/
theorem pollTransfer_sound {ω : Type} [AsyncWrite ω] {s : H2StreamToChunkedTransfer ω}
    (h : s.recvStream.Sound) : s.pollTransfer.state.recvStream.Sound := by
  have hwrite : ∀ (b : Bytes) {wrote : Nat → ω → H2StreamToChunkedTransfer ω},
      (∀ n w, (wrote n w).recvStream = s.recvStream) →
      (writeStep s.writer b .writeError zeroByteWritten (fun w => { s with writer := w })
        wrote : Step ω).state.recvStream.Sound := by
    intro b wrote hwrote
    rw [writeStep]
    split
    · exact h
    · exact h
    · exact h
    · exact (hwrote _ _).symm ▸ h
  rw [pollTransfer]
  split
  · split
    · exact nextChunk_sound h
    · rw [sendHeader]
      split
      · exact hwrite _ fun _ _ => rfl
      · split <;> exact h
    · rw [sendChunk]
      split
      · exact hwrite _ fun _ _ => rfl
      · split <;> exact h
  · rw [pollTransferTrailers]
    split
    · split
      · exact hwrite _ fun _ _ => rfl
      · exact h
    · have htr := h.pollTrailers
      split <;> next hp => rw [hp] at htr; exact htr
  · rw [pollFlushEnd, flushStep]
    split <;> exact h

/-- The transfer gets ready, and the whole body is written. -/
theorem gives_encoded [AtoiRadix16] {front all : Bytes} {copied₀ : Nat}
    {trailers : TrailersResult} (h : s.Inv front copied₀ trailers all)
    (hsound : s.recvStream.Sound) :
    (future (Tapped ω)).Gives s (Encoded front copied₀ trailers all) := by
  refine (Future.gives_of_lowers
    (I := fun t => t.Inv front copied₀ trailers all ∧ t.recvStream.Sound)
    (fun ht => ⟨ht.1.enter, ht.2⟩)
    (fun ht => (pollTransfer_ensures ht.1).and_state (pollTransfer_sound ht.2))
    (fun ht => pollTransfer_lowers ht.1 ht.2) ⟨h, hsound⟩).mono ?_
  rintro n t ⟨henc, -⟩
  exact henc

end H2StreamToChunkedTransfer

end Vey.H2
