import Vey.Schemes.ChunkFrame
import Vey.IoExt.StreamCopy
import Vey.Http.ChunkedLine

/-! `StreamToChunkedTransfer`: write a stream as a chunked body, one chunk for each filled buffer.

        top --fill_buf--> header --written--> payload --written--> top
                            |
                            +-- at the end of the stream: flush, Ready

    The CRLF behind a payload is written with the header of the next chunk, and the encoder knows
    from `total_write == 0` that there is no chunk before this one. -/

namespace Vey.Http
open Schemes IoExt List Frame

/-- Where `poll_encode` is. -/
inductive EncodeAt where
  | top
  | header
  | payload

structure StreamToChunkedTransfer (ω : Type) where
  reader : Source
  writer : ω
  yieldSize : Nat
  noTrailer : Bool
  thisChunkSize : Nat := 0
  leftChunkSize : Nat := 0
  staticHeader : Bytes := []
  staticOffset : Nat := 0
  totalWrite : Nat := 0
  copied : Nat := 0
  readFinished : Bool := false
  active : Bool := false
  pc : EncodeAt := .top
  copyThisRound : Nat := 0

/-- The error of a writer that accepts nothing. -/
def zeroByteWritten : StreamCopyError := .writeFailed ⟨.writeZero, "zero byte written out"⟩

namespace StreamToChunkedTransfer

variable {ω : Type}

def newWithNoTrailer (reader : Source) (writer : ω) (yieldSize : Nat) :
    StreamToChunkedTransfer ω where
  reader := reader
  writer := writer
  yieldSize := yieldSize
  noTrailer := true

variable (s : StreamToChunkedTransfer ω)

def bodySize : Nat := s.copied

def enter : StreamToChunkedTransfer ω :=
  { s with pc := .top, copyThisRound := 0 }

/-- What stands between the payload written so far and a chunk of `chunkSize` bytes. -/
def chunkHeader (totalWrite : Nat) (noTrailer : Bool) (chunkSize : Nat) : Bytes :=
  if chunkSize = 0 then
    if totalWrite = 0 then
      if noTrailer then ascii "0\r\n\r\n" else ascii "0\r\n"
    else if noTrailer then ascii "\r\n0\r\n\r\n" else ascii "\r\n0\r\n"
  else if totalWrite = 0 then hexFmt chunkSize ++ [cr, lf]
  else [cr, lf] ++ (hexFmt chunkSize ++ [cr, lf])

/-- The answer of one step of `poll_encode`. -/
abbrev Step (ω : Type) := Ctrl (StreamToChunkedTransfer ω) (CopyPoll Nat)

/-- The first part of a round: start a chunk when none is open. -/
def nextChunk : Step ω :=
  if s.thisChunkSize = 0 ∧ s.readFinished = false then
    match s.reader.pollFillBuf with
    | (.pending, reader) => .ret .pending { s with reader := reader }
    | (.ready (.error e), reader) =>
      .ret (.ready (.error (.readFailed e))) { s with reader := reader }
    | (.ready (.ok data), reader) =>
      .next { s with
        reader := reader
        active := true
        readFinished := data.length == 0
        staticHeader := chunkHeader s.totalWrite s.noTrailer data.length
        staticOffset := 0
        thisChunkSize := data.length
        leftChunkSize := data.length
        pc := .header }
  else .next { s with pc := .header }

variable [AsyncWrite ω]

def sendHeader : Step ω :=
  if s.staticOffset < s.staticHeader.length then
    match pollWrite s.writer (s.staticHeader.drop s.staticOffset) with
    | (.pending, writer) => .ret .pending { s with writer := writer }
    | (.ready (.error e), writer) =>
      .ret (.ready (.error (.writeFailed e))) { s with writer := writer }
    | (.ready (.ok 0), writer) => .ret (.ready (.error zeroByteWritten)) { s with writer := writer }
    | (.ready (.ok nw), writer) =>
      .next { s with
        writer := writer
        active := true
        staticOffset := s.staticOffset + nw
        totalWrite := s.totalWrite + nw }
  else if s.readFinished then
    match pollFlush s.writer with
    | (.pending, writer) => .ret .pending { s with writer := writer }
    | (.ready (.error e), writer) =>
      .ret (.ready (.error (.writeFailed e))) { s with writer := writer }
    | (.ready (.ok _), writer) => .ret (.ready (.ok s.totalWrite)) { s with writer := writer }
  else .next { s with pc := .payload }

def sendPayload : Step ω :=
  if s.leftChunkSize > 0 then
    match s.reader.pollFillBuf with
    | (.pending, reader) => .ret .pending { s with reader := reader }
    | (.ready (.error e), reader) =>
      .ret (.ready (.error (.readFailed e))) { s with reader := reader }
    | (.ready (.ok data), reader) =>
      match pollWrite s.writer (data.take s.leftChunkSize) with
      | (.pending, writer) => .ret .pending { s with reader := reader, writer := writer }
      | (.ready (.error e), writer) =>
        .ret (.ready (.error (.writeFailed e))) { s with reader := reader, writer := writer }
      | (.ready (.ok 0), writer) =>
        .ret (.ready (.error zeroByteWritten)) { s with reader := reader, writer := writer }
      | (.ready (.ok nw), writer) =>
        .next { s with
          reader := reader.consume nw
          writer := writer
          copyThisRound := s.copyThisRound + nw
          active := true
          leftChunkSize := s.leftChunkSize - nw
          totalWrite := s.totalWrite + nw
          copied := s.copied + nw }
  else
    let s := { s with thisChunkSize := 0, pc := .top }
    if s.copyThisRound ≥ s.yieldSize then .ret .pending s else .next s

/-- One step of `poll_encode`. -/
def pollEncode : Step ω :=
  match s.pc with
  | .top => s.nextChunk
  | .header => s.sendHeader
  | .payload => s.sendPayload

end StreamToChunkedTransfer

/-! ### What a writer of chunks writes -/

section

variable [AtoiRadix16]

/-- A written size line is read back. -/
theorem feed_hexFmt {n : Nat} (hn : n < 2 ^ 64) (d : Bytes) :
    feed sizeOf ⟨.sizeLine [], d⟩ (hexFmt n ++ [cr, lf]) = ⟨afterSize (some n), d⟩ := by
  rw [feed_sizeLine_crlf (cr_not_mem_hexFmt n), nil_append, sizeOf_hexFmt hn]

/-- The last chunk and an empty trailer. -/
theorem feed_lastChunk (d : Bytes) :
    feed sizeOf ⟨.sizeLine [], d⟩ (ascii "0\r\n\r\n") = ⟨.done, d⟩ := by
  have hsplit : ascii "0\r\n\r\n" = (hexFmt 0 ++ [cr, lf]) ++ [cr, lf] := by decide
  rw [hsplit, feed_append, feed_hexFmt (by decide)]
  exact feed_trailer_crlf d

theorem feed_dataCr (d rest : Bytes) :
    feed sizeOf ⟨.dataCr, d⟩ ([cr, lf] ++ rest) = feed sizeOf ⟨.sizeLine [], d⟩ rest := by
  rw [feed_append, feed_dataCr_crlf]

/-- The size line of a chunk leads to its payload. -/
theorem feed_chunkSize {n : Nat} (hn : n < 2 ^ 64) (hpos : n ≠ 0) {d : Bytes} :
    feed sizeOf ⟨.sizeLine [], d⟩ (hexFmt n ++ [cr, lf]) = ⟨.data n, d⟩ := by
  obtain ⟨k, rfl⟩ := Nat.exists_eq_succ_of_ne_zero hpos
  rw [feed_hexFmt hn]; rfl

/-- A header leads to the payload of its chunk, or ends the body. -/
theorem feed_chunkHeader {n : Nat} (hn : n < 2 ^ 64) (total : Nat) (d : Bytes) :
    feed sizeOf ⟨if total = 0 then .sizeLine [] else .dataCr, d⟩
      (StreamToChunkedTransfer.chunkHeader total true n) =
      ⟨if n = 0 then .done else .data n, d⟩ := by
  unfold StreamToChunkedTransfer.chunkHeader
  by_cases hz : n = 0 <;> by_cases ht : total = 0
  · simpa [hz, ht] using feed_lastChunk d
  · have hsplit : ascii "\r\n0\r\n\r\n" = [cr, lf] ++ ascii "0\r\n\r\n" := by decide
    simp only [hz, ht, if_true, if_false]
    rw [hsplit, feed_dataCr]
    exact feed_lastChunk d
  · simpa [hz, ht] using feed_chunkSize hn hz
  · simp only [hz, ht, if_false]
    rw [feed_dataCr]
    exact feed_chunkSize hn hz

end

/-! ### The encoder is lossless -/

namespace StreamToChunkedTransfer

variable [AtoiRadix16] {ω : Type} [AsyncWrite ω] {input sent : Bytes}
  {s : StreamToChunkedTransfer (Tapped ω)}

/-- Where the framing of the output is once the current header is written. -/
def outSt {ω : Type} (s : StreamToChunkedTransfer ω) : FrameSt :=
  if s.readFinished then .done
  else if s.thisChunkSize = 0 then if s.totalWrite = 0 then .sizeLine [] else .dataCr
  else Frame.dataSt s.leftChunkSize

/-- What was written, with the rest of the current header, carries the payload `sent`. -/
structure Encodes (sent : Bytes) (s : StreamToChunkedTransfer (Tapped ω)) : Prop where
  noTrailer : s.noTrailer = true
  total : s.totalWrite = s.writer.log.length
  copied : s.copied = sent.length
  frame : Frame.feed sizeOf Frame.start (s.writer.log ++ s.staticHeader.drop s.staticOffset) =
    ⟨s.outSt, sent⟩
  room : s.leftChunkSize ≤ s.reader.buffered.length
  fin : s.readFinished = true → s.reader.content = []
  idle : s.readFinished = false → s.thisChunkSize = 0 →
    s.leftChunkSize = 0 ∧ s.staticHeader.drop s.staticOffset = []
  opened : s.pc ≠ .top → s.readFinished = false → s.thisChunkSize ≠ 0
  payload : s.pc = .payload → s.readFinished = false ∧ s.staticHeader.drop s.staticOffset = []

/-- The payload carried so far and the unread stream are the input. -/
def Inv (input : Bytes) (s : StreamToChunkedTransfer (Tapped ω)) : Prop :=
  ∃ sent, sent ++ s.reader.content = input ∧ s.Encodes sent

/-- The whole input was written as one chunked body. -/
structure Encoded (input : Bytes) (n : Nat) (s : StreamToChunkedTransfer (Tapped ω)) : Prop where
  drained : s.reader.content = []
  frame : Frame.feed sizeOf Frame.start s.writer.log = ⟨.done, input⟩
  size : s.bodySize = input.length

omit [AsyncWrite ω] in
theorem Encodes.withReader (h : s.Encodes sent) {r : Source}
    (hroom : s.leftChunkSize ≤ r.buffered.length) (hcont : r.content = s.reader.content) :
    ({ s with reader := r } : StreamToChunkedTransfer (Tapped ω)).Encodes sent :=
  ⟨h.noTrailer, h.total, h.copied, h.frame, hroom, fun hf => hcont.trans (h.fin hf), h.idle,
    h.opened, h.payload⟩

omit [AsyncWrite ω] in
theorem Encodes.withWriter (h : s.Encodes sent) {w : Tapped ω} (hw : w.log = s.writer.log) :
    ({ s with writer := w } : StreamToChunkedTransfer (Tapped ω)).Encodes sent :=
  ⟨h.noTrailer, by rw [h.total, ← hw], h.copied, by rw [hw]; exact h.frame, h.room, h.fin, h.idle,
    h.opened, h.payload⟩

omit [AsyncWrite ω] in
theorem nextChunk_ensures (h : s.Inv input) : s.nextChunk.Ensures (Inv input) (Encoded input) := by
  obtain ⟨sent, hin, henc⟩ := h
  unfold nextChunk
  split
  case isTrue hc =>
    obtain ⟨hthis, hrf⟩ := hc
    obtain ⟨hleft, hhead⟩ := henc.idle hrf hthis
    split
    case h_1 r hf =>
      have hcont : r.content = s.reader.content := by
        rw [← Source.pollFillBuf_content s.reader, hf]
      exact ⟨sent, by rw [← hin, ← hcont], henc.withReader (by omega) hcont⟩
    case h_2 => exact trivial
    case h_3 data r hf =>
      obtain ⟨hbuf, hcont, hend⟩ := Source.pollFillBuf_ok hf
      have hfits : data.length < 2 ^ 64 := hbuf ▸ r.fits
      have hnow := henc.frame
      simp only [hhead, append_nil, outSt, hrf, hthis, if_true, Bool.false_eq_true,
        if_false] at hnow
      refine ⟨sent, by rw [← hin, ← hcont], henc.noTrailer, henc.total, henc.copied, ?_, ?_, ?_, ?_,
        ?_, by simp⟩
      · simp only [drop_zero]
        rw [feed_append, hnow, henc.noTrailer, feed_chunkHeader hfits]
        by_cases hz : data.length = 0
        · simp [outSt, hz]
        · simp [outSt, hz, dataSt]
      · simp [hbuf]
      · intro hfin
        exact hend (by simpa using hfin)
      · intro hfin hz
        simp at hfin hz
        exact absurd hz hfin
      · intro _ hfin
        simpa using hfin
  case isFalse hc =>
    exact ⟨sent, hin, henc.noTrailer, henc.total, henc.copied, henc.frame, henc.room, henc.fin,
      henc.idle, fun _ hrf hz => hc ⟨hz, hrf⟩, by simp⟩

omit [AsyncWrite ω] in
/-- Once something is framed, something was written. -/
theorem Encodes.log_ne_nil (h : s.Encodes sent) (hp : s.pc = .payload) : s.writer.log ≠ [] := by
  obtain ⟨hrf, hhead⟩ := h.payload hp
  have hthis := h.opened (by simp [hp]) hrf
  intro h0
  have hf := h.frame
  simp only [hhead, h0, append_nil, outSt, hrf, hthis, Bool.false_eq_true, if_false,
    feed_nil, start, dataSt] at hf
  split at hf <;> simp at hf

theorem sendHeader_ensures (h : s.Inv input) (hpc : s.pc = .header) :
    s.sendHeader.Ensures (Inv input) (Encoded input) := by
  obtain ⟨sent, hin, henc⟩ := h
  unfold sendHeader
  split
  case isTrue hlt =>
    have hopen := henc.opened (by simp [hpc])
    refine writeStep_ensures (fun hw => ⟨sent, hin, henc.withWriter hw⟩) fun {nw w} _ hle hw => ?_
    have hlog : w.log.length = s.writer.log.length + nw := by
      rw [hw, length_append, length_take]; omega
    refine ⟨sent, hin, henc.noTrailer, ?_, henc.copied, ?_, henc.room, henc.fin, ?_, henc.opened,
      by simp [hpc]⟩
    · rw [hlog, ← henc.total]
    · rw [hw, append_assoc, ← drop_drop, take_append_drop, henc.frame]
      by_cases hrf : s.readFinished = true
      · simp [outSt, hrf]
      · simp [outSt, hrf, hopen (by simpa using hrf)]
    · intro hrf hz
      exact absurd hz (hopen hrf)
  case isFalse hge =>
    have hhead : s.staticHeader.drop s.staticOffset = [] := drop_eq_nil_of_le (by omega)
    split
    case isTrue hrf =>
      refine flushStep_ensures (fun hw => ⟨sent, hin, henc.withWriter hw⟩) fun hw => ?_
      have hend := henc.fin hrf
      obtain rfl : sent = input := by simpa [hend] using hin
      refine ⟨hend, ?_, henc.copied⟩
      have hf := henc.frame
      simp only [hhead, append_nil, outSt, hrf, if_true] at hf
      rw [hw]; exact hf
    case isFalse hrf =>
      have hrf' : s.readFinished = false := by simpa using hrf
      exact ⟨sent, hin, henc.noTrailer, henc.total, henc.copied, henc.frame, henc.room, henc.fin,
        henc.idle, fun _ => henc.opened (by simp [hpc]), fun _ => ⟨hrf', hhead⟩⟩

theorem sendPayload_ensures (h : s.Inv input) (hpc : s.pc = .payload) :
    s.sendPayload.Ensures (Inv input) (Encoded input) := by
  obtain ⟨sent, hin, henc⟩ := h
  obtain ⟨hrf, hhead⟩ := henc.payload hpc
  have hthis := henc.opened (by simp [hpc]) hrf
  have hroom := henc.room
  have hnow := henc.frame
  simp only [hhead, append_nil, outSt, hrf, hthis, Bool.false_eq_true, if_false] at hnow
  unfold sendPayload
  split
  case isTrue hpos =>
    -- the chunk is still in the buffer of the reader, so the fill neither stalls nor reads
    obtain ⟨b, bs, hbs⟩ := exists_cons_of_ne_nil
      (ne_nil_of_length_pos (Nat.lt_of_lt_of_le hpos hroom))
    have hfill : s.reader.pollFillBuf = (.ready (.ok s.reader.buffered), s.reader) := by
      rw [Source.pollFillBuf, hbs]
    rw [hfill]
    dsimp only
    refine writeStep_ensures (fun hw => ⟨sent, hin, henc.withWriter hw⟩) fun {nw w} _ hle hlog => ?_
    rw [length_take, Nat.min_eq_left hroom] at hle
    rw [take_take, Nat.min_eq_left hle] at hlog
    have htake : (s.reader.buffered.take nw).length = nw := by
      rw [length_take]; omega
    refine ⟨sent ++ s.reader.buffered.take nw, ?_, henc.noTrailer, ?_, ?_, ?_, ?_, by simp [hrf],
      ?_, henc.opened, henc.payload⟩
    · rw [append_assoc, Source.consume_content, hin]
    · rw [hlog, length_append, htake, ← henc.total]
    · rw [length_append, htake, ← henc.copied]
    · simp only [hhead, append_nil, outSt, hrf, hthis, Bool.false_eq_true, if_false]
      rw [hlog, feed_append, hnow, dataSt, if_neg (Nat.ne_of_gt hpos),
        feed_data (by omega) hpos, htake]
    · simp only [Source.consume, length_drop]; omega
    · intro _ hz
      exact absurd hz hthis
  case isFalse hpos =>
    have hleft : s.leftChunkSize = 0 := by omega
    have htop : ({ s with thisChunkSize := 0, pc := .top } :
        StreamToChunkedTransfer (Tapped ω)).Encodes sent := by
      have hne := henc.log_ne_nil hpc
      have htot : s.totalWrite ≠ 0 := by
        rw [henc.total]; simpa using hne
      refine ⟨henc.noTrailer, henc.total, henc.copied, ?_, hroom, by simp [hrf],
        fun _ _ => ⟨hleft, hhead⟩, by simp, by simp⟩
      simp only [hhead, append_nil, outSt, hrf, htot, Bool.false_eq_true, if_false, if_true]
      rw [hnow, hleft, dataSt, if_pos rfl]
    dsimp only
    split <;> exact ⟨sent, hin, htop⟩

/-- One step of `poll_encode`: nothing is lost, and at the end the output is one complete body. -/
theorem pollEncode_ensures (h : s.Inv input) :
    s.pollEncode.Ensures (Inv input) (Encoded input) := by
  unfold pollEncode
  cases hpc : s.pc with
  | top => exact nextChunk_ensures h
  | header => exact sendHeader_ensures h hpc
  | payload => exact sendPayload_ensures h hpc

omit [AsyncWrite ω] in
theorem Inv.enter (h : s.Inv input) : s.enter.Inv input := by
  obtain ⟨sent, hin, henc⟩ := h
  exact ⟨sent, hin, henc.noTrailer, henc.total, henc.copied, henc.frame, henc.room, henc.fin,
    henc.idle, by simp [StreamToChunkedTransfer.enter], by simp [StreamToChunkedTransfer.enter]⟩

omit [AsyncWrite ω] in
theorem inv_newWithNoTrailer (r : Source) (w : ω) (yieldSize : Nat) :
    (newWithNoTrailer r (tap w) yieldSize).Inv r.content :=
  ⟨[], rfl, rfl, rfl, rfl, rfl, Nat.zero_le _, nofun, fun _ _ => ⟨rfl, rfl⟩, nofun, nofun⟩

end StreamToChunkedTransfer

end Vey.Http
