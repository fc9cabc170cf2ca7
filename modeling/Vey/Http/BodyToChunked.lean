import Vey.Http.BodyFraming
import Vey.Http.StreamToChunked

/-! `H1BodyToChunkedTransfer`: relay a message body of any type as a chunked body.

        ContentLength(n)       SendHead -> Copy -> SendNoTrailerEnd -> FlushEnd
        ContentLength(0)                           SendNoTrailerEnd -> FlushEnd
        ReadUntilEnd           Encode -> End
        Chunked                            Copy -> End
        chunked after preview  SendHead -> Copy -> End

    A body of known length becomes one chunk, a stream is encoded buffer by buffer, and what is
    chunked already is copied as it is, behind a size line for the rest of a chunk whose start went
    elsewhere. -/

namespace Vey.Http
open Schemes IoExt List Frame HttpBodyReader StreamToChunkedTransfer

/-- NO_TRAILER_END_BUFFER -/
def noTrailerEndBuffer : Bytes := ascii "\r\n0\r\n\r\n"

structure SendHead (ω : Type) where
  head : Bytes
  offset : Nat
  bodyReader : HttpBodyReader
  writer : ω

structure SendEnd (ω : Type) where
  offset : Nat
  reader : Source
  writer : ω

/-- The states of a transfer. In the source the last states have given the borrowed streams back
    to their owner; here they keep them. -/
inductive ChunkedTransferState (ω : Type) where
  | sendHead (s : SendHead ω)
  | copy (c : StreamCopy HttpBodyReader ω)
  | sendNoTrailerEnd (e : SendEnd ω)
  | encode (e : StreamToChunkedTransfer ω)
  | flushEnd (reader : Source) (writer : ω)
  | ended (reader : Source) (writer : ω)

namespace ChunkedTransferState

variable {ω : Type}

def reader : ChunkedTransferState ω → Source
  | .sendHead s => s.bodyReader.stream
  | .copy c => c.reader.stream
  | .sendNoTrailerEnd e => e.reader
  | .encode e => e.reader
  | .flushEnd r _ => r
  | .ended r _ => r

def writer : ChunkedTransferState ω → ω
  | .sendHead s => s.writer
  | .copy c => c.writer
  | .sendNoTrailerEnd e => e.writer
  | .encode e => e.writer
  | .flushEnd _ w => w
  | .ended _ w => w

/-- A further poll of the copy or of the encoder inside. -/
def enter : ChunkedTransferState ω → ChunkedTransferState ω
  | .copy c => .copy c.enter
  | .encode e => .encode e.enter
  | s => s

end ChunkedTransferState

/-- The transfer; `base` is its field `body_size`, to which the method of that name adds the part
    that is in flight. -/
structure H1BodyToChunkedTransfer (ω : Type) where
  bodyType : HttpBodyType
  copyConfig : StreamCopyConfig
  state : ChunkedTransferState ω
  totalWrite : Nat := 0
  base : Nat := 0
  active : Bool := false

namespace H1BodyToChunkedTransfer

variable {ω : Type} (reader : Source)

def newReadUntilEnd (writer : ω) (copyConfig : StreamCopyConfig) : H1BodyToChunkedTransfer ω where
  bodyType := .readUntilEnd
  copyConfig := copyConfig
  state := .encode (.newWithNoTrailer reader writer copyConfig.yieldSize)

def newFixedLength (writer : ω) (len : UInt64) (copyConfig : StreamCopyConfig) :
    H1BodyToChunkedTransfer ω where
  bodyType := .contentLength len
  copyConfig := copyConfig
  state :=
    -- just send 0 chunk size and empty trailer end
    if len = 0 then .sendNoTrailerEnd ⟨2, reader, writer⟩
    else .sendHead ⟨hexFmt len.toNat ++ [cr, lf], 0, .newFixedLength reader len, writer⟩

def newChunked (writer : ω) (bodyLineMaxLen : Nat)
    (copyConfig : StreamCopyConfig) : H1BodyToChunkedTransfer ω where
  bodyType := .chunked
  copyConfig := copyConfig
  state := .copy (.new (.newChunked reader bodyLineMaxLen) writer copyConfig)

def newChunkedAfterPreview (writer : ω) (leftChunkSize : UInt64)
    (bodyLineMaxLen : Nat) (copyConfig : StreamCopyConfig) : H1BodyToChunkedTransfer ω :=
  if leftChunkSize = 0 then newChunked reader writer bodyLineMaxLen copyConfig
  else {
    bodyType := .chunked
    copyConfig := copyConfig
    state := .sendHead ⟨hexFmt leftChunkSize.toNat ++ [cr, lf], 0,
      .newChunkedAfterPreview reader bodyLineMaxLen leftChunkSize, writer⟩ }

def new (writer : ω) (bodyType : HttpBodyType) (bodyLineMaxLen : Nat)
    (copyConfig : StreamCopyConfig) : H1BodyToChunkedTransfer ω :=
  match bodyType with
  | .contentLength len => newFixedLength reader writer len copyConfig
  | .readUntilEnd => newReadUntilEnd reader writer copyConfig
  | .chunked => newChunked reader writer bodyLineMaxLen copyConfig

def bodySize (t : H1BodyToChunkedTransfer ω) : Nat :=
  t.base + match t.state with
    | .sendHead s => s.bodyReader.bodySize
    | .copy c => c.reader.bodySize
    | .encode e => e.bodySize
    | .sendNoTrailerEnd _ | .flushEnd _ _ | .ended _ _ => 0

/-! ### The poll function -/

abbrev Step (ω : Type) := Ctrl (H1BodyToChunkedTransfer ω) (CopyPoll Unit)

section

variable [AtoiRadix16] [AsyncWrite ω] (t : H1BodyToChunkedTransfer ω)

def pollSendHead (s : SendHead ω) : Step ω :=
  if s.offset < s.head.length then
    match pollWrite s.writer (s.head.drop s.offset) with
    | (.pending, writer) =>
      .ret .pending { t with state := .sendHead { s with writer := writer } }
    | (.ready (.error e), writer) =>
      .ret (.ready (.error (.writeFailed e))) { t with state := .sendHead { s with writer := writer } }
    | (.ready (.ok 0), writer) =>
      .ret (.ready (.error zeroByteWritten)) { t with state := .sendHead { s with writer := writer } }
    | (.ready (.ok nw), writer) =>
      .next { t with state := .sendHead { s with writer := writer, offset := s.offset + nw } }
  else
    .next { t with
      totalWrite := t.totalWrite + s.offset
      active := true
      state := .copy (.new s.bodyReader s.writer t.copyConfig) }

def pollCopy (c : StreamCopy HttpBodyReader ω) : Step ω :=
  match c.pollCopy with
  | .next c => .next { t with state := .copy c }
  | .ret .pending c =>
    .ret .pending { t with active := t.active || c.buf.active, state := .copy c }
  | .ret (.ready (.error e)) c => .ret (.ready (.error e)) { t with state := .copy c }
  | .ret (.ready (.ok n)) c =>
    let t := { t with
      totalWrite := t.totalWrite + n, active := true, base := t.base + c.reader.bodySize }
    match t.bodyType with
    | .contentLength _ => .next { t with state := .sendNoTrailerEnd ⟨0, c.reader.stream, c.writer⟩ }
    | _ => .ret (.ready (.ok ())) { t with state := .ended c.reader.stream c.writer }

def pollSendNoTrailerEnd (e : SendEnd ω) : Step ω :=
  if e.offset < noTrailerEndBuffer.length then
    match pollWrite e.writer (noTrailerEndBuffer.drop e.offset) with
    | (.pending, writer) =>
      .ret .pending { t with state := .sendNoTrailerEnd { e with writer := writer } }
    | (.ready (.error err), writer) =>
      .ret (.ready (.error (.writeFailed err)))
        { t with state := .sendNoTrailerEnd { e with writer := writer } }
    | (.ready (.ok 0), writer) =>
      .ret (.ready (.error zeroByteWritten))
        { t with state := .sendNoTrailerEnd { e with writer := writer } }
    | (.ready (.ok nw), writer) =>
      .next { t with state := .sendNoTrailerEnd { e with writer := writer, offset := e.offset + nw } }
  else .ret (.ready (.ok ())) { t with active := true, state := .flushEnd e.reader e.writer }

def pollEncode (e : StreamToChunkedTransfer ω) : Step ω :=
  match e.pollEncode with
  | .next e => .next { t with state := .encode e }
  | .ret .pending e => .ret .pending { t with active := t.active || e.active, state := .encode e }
  | .ret (.ready (.error err)) e => .ret (.ready (.error err)) { t with state := .encode e }
  | .ret (.ready (.ok n)) e =>
    .ret (.ready (.ok ())) { t with
      totalWrite := t.totalWrite + n
      active := true
      base := t.base + e.bodySize
      state := .ended e.reader e.writer }

/-- One step of `poll`. -/
def poll : Step ω :=
  match t.state with
  | .sendHead s => t.pollSendHead s
  | .copy c => t.pollCopy c
  | .sendNoTrailerEnd e => t.pollSendNoTrailerEnd e
  | .encode e => t.pollEncode e
  | .flushEnd reader writer =>
    match pollFlush writer with
    | (.pending, writer) => .ret .pending { t with state := .flushEnd reader writer }
    | (.ready (.error e), writer) =>
      .ret (.ready (.error (.writeFailed e))) { t with state := .flushEnd reader writer }
    | (.ready (.ok _), writer) => .ret (.ready (.ok ())) { t with state := .flushEnd reader writer }
  | .ended _ _ => .ret (.ready (.ok ())) t

/-- The transfer as a future. -/
def future (ω : Type) [AsyncWrite ω] :
    Future (H1BodyToChunkedTransfer ω) (Except StreamCopyError Unit) :=
  ⟨fun t => { t with state := t.state.enter }, poll⟩

end

end H1BodyToChunkedTransfer

/-! ### What a body is -/

/-- How a body is delimited: by one of the body types, or as what is left of a chunked body when
    `left` bytes of its current chunk are still to come. -/
inductive BodyKind where
  | ofType (bodyType : HttpBodyType)
  | chunkedAfterPreview (left : UInt64)

namespace BodyKind

/-- The transfer for a body. -/
def transfer {ω : Type} (kind : BodyKind) (reader : Source) (writer : ω) (bodyLineMaxLen : Nat)
    (copyConfig : StreamCopyConfig) : H1BodyToChunkedTransfer ω :=
  match kind with
  | .ofType bodyType => .new reader writer bodyType bodyLineMaxLen copyConfig
  | .chunkedAfterPreview left =>
    .newChunkedAfterPreview reader writer left bodyLineMaxLen copyConfig

/-- The framing state of a chunked body with `left` bytes of the current chunk to come. -/
def previewStart (left : UInt64) : Frame :=
  if left = 0 then Frame.start else ⟨.data left.toNat, []⟩

variable [AtoiRadix16]

/-- A stream `wire ++ rest` starts with the body `body`, which takes the bytes `wire`. -/
def Delimits (kind : BodyKind) (wire rest body : Bytes) : Prop :=
  match kind with
  | .ofType (.contentLength len) => wire = body ∧ body.length = len.toNat
  | .ofType .readUntilEnd => wire = body ∧ rest = []
  | .ofType .chunked => Frame.feed sizeOf Frame.start wire = ⟨.done, body⟩
  | .chunkedAfterPreview left => Frame.feed sizeOf (previewStart left) wire = ⟨.done, body⟩

end BodyKind

/-! ### The transfer preserves the body -/

section

variable [AtoiRadix16] {ω : Type} [AsyncWrite ω] {kind : BodyKind} {input : Bytes}

/-- What is owed at the end: the written bytes are one complete chunked body, which decodes to the
    body at the start of the input; what follows that body is still in the reader. -/
structure Delivered (kind : BodyKind) (input log : Bytes) (rest : Bytes) (size : Nat) : Prop where
  exact : ∃ wire body, input = wire ++ rest ∧ kind.Delimits wire rest body ∧
    Frame.feed sizeOf Frame.start log = ⟨.done, body⟩ ∧ size = body.length

/-- The framing state behind a copied body: a body of fixed length still needs its last chunk. -/
def copiedSt : HttpBodyType → FrameSt
  | .contentLength _ => .dataCr
  | _ => .done

/-- A reader that delivers, behind `head`, all of the body but its end. -/
def Carries (kind : BodyKind) (bodyType : HttpBodyType) (input head : Bytes)
    (R : ReaderSpec HttpBodyReader) : Prop :=
  ∀ {d : Bytes} {r : HttpBodyReader}, R.rel d r → R.eof r →
    ∃ body, d ++ r.stream.content = input ∧ kind.Delimits d r.stream.content body ∧
      Frame.feed sizeOf Frame.start (head ++ d) = ⟨copiedSt bodyType, body⟩ ∧
      r.bodySize = body.length

/-- The law of each state. -/
def StateInv (kind : BodyKind) (bodyType : HttpBodyType) (input : Bytes) (base : Nat) :
    ChunkedTransferState (Tapped ω) → Prop
  | .sendHead s => base = 0 ∧ s.writer.log ++ s.head.drop s.offset = s.head ∧
      ∃ R, Carries kind bodyType input s.head R ∧ R.rel [] s.bodyReader
  | .copy c => base = 0 ∧ ∃ R head, Carries kind bodyType input head R ∧ c.Inv R head.length head
  | .sendNoTrailerEnd e => ∃ wire body, input = wire ++ e.reader.content ∧
      kind.Delimits wire e.reader.content body ∧ base = body.length ∧
      Frame.feed sizeOf Frame.start (e.writer.log ++ noTrailerEndBuffer.drop e.offset) =
        ⟨.done, body⟩
  | .encode e => base = 0 ∧ kind = .ofType .readUntilEnd ∧ e.Inv input
  | .flushEnd r w | .ended r w => Delivered kind input w.log r.content base

namespace H1BodyToChunkedTransfer

variable {t : H1BodyToChunkedTransfer (Tapped ω)}

def Inv (kind : BodyKind) (input : Bytes) (t : H1BodyToChunkedTransfer (Tapped ω)) : Prop :=
  StateInv kind t.bodyType input t.base t.state

/-- A transfer that is through. -/
def Done (kind : BodyKind) (input : Bytes) (_ : Unit) (t : H1BodyToChunkedTransfer (Tapped ω)) :
    Prop :=
  Delivered kind input t.state.writer.log t.state.reader.content t.bodySize

theorem pollSendHead_ensures {s : SendHead (Tapped ω)}
    (h : StateInv kind t.bodyType input t.base (.sendHead s)) :
    (t.pollSendHead s).Ensures (Inv kind input) (Done kind input) := by
  obtain ⟨hbase, hlog, R, hR, hrel⟩ := h
  unfold pollSendHead
  split
  case isTrue =>
    refine writeStep_ensures (fun hw => ⟨hbase, ?_, R, hR, hrel⟩) fun _ _ hw => ⟨hbase, ?_, R, hR, hrel⟩
    · rw [hw]; exact hlog
    · rw [hw, append_assoc, ← drop_drop, take_append_drop]; exact hlog
  case isFalse hge =>
    have hall : s.writer.log = s.head := by
      rw [drop_eq_nil_of_le (by omega), append_nil] at hlog; exact hlog
    refine ⟨hbase, R, s.head, hR, [], hrel, ?_, nofun⟩
    simpa [hall, StreamCopy.new] using (Conserves.new _).behind s.head

theorem pollCopy_ensures {c : StreamCopy HttpBodyReader (Tapped ω)}
    (h : StateInv kind t.bodyType input t.base (.copy c)) :
    (t.pollCopy c).Ensures (Inv kind input) (Done kind input) := by
  obtain ⟨hbase, R, head, hR, hc⟩ := h
  have hstep := StreamCopy.pollCopy_ensures hc
  unfold pollCopy
  split
  case h_1 c' he | h_2 c' he => rw [he] at hstep; exact ⟨hbase, R, head, hR, hstep⟩
  case h_3 => exact trivial
  case h_4 n c' he =>
    rw [he] at hstep
    obtain ⟨⟨d, hrel, hcons, -⟩, hcached, heof, -⟩ := hstep
    obtain ⟨body, hin, hdel, hframe, hsize⟩ := hR hrel heof
    have hlog : c'.writer.log = head ++ d := by simpa [hcached] using hcons.flow
    dsimp only
    split
    case h_1 len hty =>
      refine ⟨d, body, hin.symm, hdel, by simp [hbase, hsize], ?_⟩
      rw [hty] at hframe
      rw [hlog, feed_append, hframe, drop_zero]
      exact feed_chunkHeader (n := 0) (by decide) 1 body
    case h_2 hty =>
      refine ⟨d, body, hin.symm, hdel, ?_, by simp [bodySize, hbase, hsize]⟩
      have hst : copiedSt t.bodyType = .done := by
        unfold copiedSt
        split
        case h_1 len hlen => exact absurd hlen (hty len)
        case h_2 => rfl
      rw [hst] at hframe
      exact hlog ▸ hframe

theorem pollSendNoTrailerEnd_ensures {e : SendEnd (Tapped ω)}
    (h : StateInv kind t.bodyType input t.base (.sendNoTrailerEnd e)) :
    (t.pollSendNoTrailerEnd e).Ensures (Inv kind input) (Done kind input) := by
  obtain ⟨wire, body, hin, hdel, hbase, hframe⟩ := h
  unfold pollSendNoTrailerEnd
  split
  case isTrue =>
    refine writeStep_ensures (fun hw => ⟨wire, body, hin, hdel, hbase, ?_⟩)
      fun _ _ hw => ⟨wire, body, hin, hdel, hbase, ?_⟩
    · rw [hw]; exact hframe
    · rw [hw, append_assoc, ← drop_drop, take_append_drop]; exact hframe
  case isFalse hge =>
    rw [drop_eq_nil_of_le (by omega), append_nil] at hframe
    exact ⟨wire, body, hin, hdel, hframe, hbase⟩

theorem pollEncode_ensures {e : StreamToChunkedTransfer (Tapped ω)}
    (h : StateInv kind t.bodyType input t.base (.encode e)) :
    (t.pollEncode e).Ensures (Inv kind input) (Done kind input) := by
  obtain ⟨hbase, hkind, he⟩ := h
  have hstep := StreamToChunkedTransfer.pollEncode_ensures he
  unfold pollEncode
  split
  case h_1 e' hp | h_2 e' hp => rw [hp] at hstep; exact ⟨hbase, hkind, hstep⟩
  case h_3 => exact trivial
  case h_4 n e' hp =>
    rw [hp] at hstep
    obtain ⟨hdrained, hframe, hsize⟩ := hstep
    refine ⟨input, input, ?_, ?_, hframe, by simp [bodySize, hbase, hsize]⟩
    · simp [ChunkedTransferState.reader, hdrained]
    · rw [hkind]; exact ⟨rfl, hdrained⟩

/-- One step of `poll` keeps the law of the state it leads to. -/
theorem poll_ensures (h : t.Inv kind input) : t.poll.Ensures (Inv kind input) (Done kind input) := by
  unfold Inv at h
  unfold poll
  split
  case h_1 s hs => rw [hs] at h; exact pollSendHead_ensures h
  case h_2 c hs => rw [hs] at h; exact pollCopy_ensures h
  case h_3 e hs => rw [hs] at h; exact pollSendNoTrailerEnd_ensures h
  case h_4 e hs => rw [hs] at h; exact pollEncode_ensures h
  case h_5 r w hs =>
    rw [hs] at h
    have hlog : ∀ {w' : Tapped ω}, w'.log = w.log → Delivered kind input w'.log r.content t.base :=
      fun hw => hw ▸ h
    exact flushStep_ensures hlog hlog
  case h_6 r w hs =>
    rw [hs] at h
    show Delivered kind input t.state.writer.log t.state.reader.content t.bodySize
    rw [bodySize, hs]; exact h

theorem Inv.enter (h : t.Inv kind input) : ((future (Tapped ω)).enter t).Inv kind input := by
  obtain ⟨bodyType, config, state, total, base, active⟩ := t
  cases state with
  | encode e =>
    obtain ⟨hbase, hkind, he⟩ := h
    exact ⟨hbase, hkind, he.enter⟩
  | sendHead | copy | sendNoTrailerEnd | flushEnd | ended => exact h

/-! ### The law holds at the start -/

section

omit [AsyncWrite ω]

theorem inv_newFixedLength (src : Source) (w : ω) (len : UInt64) (config : StreamCopyConfig) :
    (newFixedLength src (tap w) len config).Inv (.ofType (.contentLength len)) src.content := by
  unfold newFixedLength Inv
  by_cases h0 : len = 0
  · simp only [h0, if_true]
    exact ⟨[], [], rfl, ⟨rfl, rfl⟩, rfl, feed_lastChunk []⟩
  · simp only [h0, if_false]
    refine ⟨rfl, rfl, fixedSpec len.toNat src.content, ?_,
      remaining_newFixedLength src h0⟩
    intro d r hrel heof
    have hrem : r.Remaining len.toNat src.content d := hrel
    have hlen : d.length = len.toNat := by
      rcases hrem.left with ⟨ht, -⟩ | ⟨-, hlen⟩
      · exact absurd (ht.symm.trans heof) (by simp)
      · exact hlen
    have hpos : len.toNat ≠ 0 := fun h => h0 (UInt64.toNat_inj.mp h)
    refine ⟨d, hrem.stream, ⟨rfl, hlen⟩, ?_, hrem.size⟩
    rw [feed_append, start, feed_chunkSize len.toNat_lt hpos, feed_data (by omega) (by omega), hlen]
    simp [copiedSt, dataSt]

/-- A chunked reader behind a head that leads to the state it starts in. -/
theorem carries_chunked {f : Frame} {head : Bytes} {bodyType : HttpBodyType} {r₀ : HttpBodyReader}
    (hr₀ : r₀.stream.content = input) (hty : copiedSt bodyType = .done)
    (hhead : feed sizeOf start head = f)
    (hkind : ∀ wire rest body, feed sizeOf f wire = ⟨.done, body⟩ →
      kind.Delimits wire rest body) :
    Carries kind bodyType input head (chunkedSpec r₀ f) := by
  rintro _ r ⟨es, rfl, hes⟩ heof
  have hdone : feed sizeOf f (bytesOf es) = ⟨.done, (feed sizeOf f (bytesOf es)).body⟩ := by
    have hst := hes.tracks.st
    rw [frameSt, show r.nextReadType = .endOfFile from heof] at hst
    exact congrArg (Frame.mk · _) hst.symm
  refine ⟨_, hes.content.trans hr₀, hkind _ _ _ hdone, ?_, hes.tracks.size⟩
  rw [feed_append, hhead, hty]; exact hdone

theorem inv_newChunked (src : Source) (w : ω) (maxLen : Nat) (config : StreamCopyConfig)
    (hkind : ∀ wire rest body, feed sizeOf start wire = ⟨.done, body⟩ →
      kind.Delimits wire rest body) :
    (newChunked src (tap w) maxLen config).Inv kind src.content := by
  refine ⟨rfl, chunkedSpec (.newChunked src maxLen) start, [], ?_, [], ?_,
    Conserves.new config, nofun⟩
  · exact carries_chunked rfl rfl (feed_nil _) hkind
  · exact ⟨[], rfl, .refl (tracks_newChunked src maxLen)⟩

theorem inv_newChunkedAfterPreview (src : Source) (w : ω) (left : UInt64) (maxLen : Nat)
    (config : StreamCopyConfig) :
    (newChunkedAfterPreview src (tap w) left maxLen config).Inv (.chunkedAfterPreview left)
      src.content := by
  unfold newChunkedAfterPreview
  by_cases h0 : left = 0
  · rw [if_pos h0]
    refine inv_newChunked src w maxLen config fun wire rest body hw => ?_
    rw [BodyKind.Delimits, BodyKind.previewStart, if_pos h0]; exact hw
  · rw [if_neg h0]
    have hhead := feed_chunkSize left.toNat_lt (fun h => h0 (UInt64.toNat_inj.mp h)) (d := [])
    obtain ⟨htr, hstream, -⟩ := newChunkedAfterPreview_eq src maxLen h0
    refine ⟨rfl, rfl, chunkedSpec _ ⟨.data left.toNat, []⟩,
      carries_chunked (congrArg _ hstream) rfl hhead fun wire rest body hw => ?_, [], rfl, .refl htr⟩
    rw [BodyKind.Delimits, BodyKind.previewStart, if_neg h0]
    exact hw

theorem inv_transfer (kind : BodyKind) (src : Source) (w : ω) (maxLen : Nat)
    (config : StreamCopyConfig) :
    (kind.transfer src (tap w) maxLen config).Inv kind src.content := by
  match kind with
  | .ofType (.contentLength len) => exact inv_newFixedLength src w len config
  | .ofType .readUntilEnd =>
    exact ⟨rfl, rfl, inv_newWithNoTrailer src w config.yieldSize⟩
  | .ofType .chunked => exact inv_newChunked src w maxLen config fun _ _ _ hw => hw
  | .chunkedAfterPreview left => exact inv_newChunkedAfterPreview src w left maxLen config

end

/-- A transfer that completes has delivered the body. -/
theorem delivered_of_completes (kind : BodyKind) {src : Source} {w : ω} {maxLen : Nat}
    {config : StreamCopyConfig}
    (h : (future (Tapped ω)).Completes (kind.transfer src (tap w) maxLen config) (.ok ()) t) :
    Delivered kind src.content t.state.writer.log t.state.reader.content t.bodySize := by
  have hdone := Future.Completes.ensures Inv.enter poll_ensures
    (inv_transfer kind src w maxLen config) h
  exact hdone

end H1BodyToChunkedTransfer

/-- The transfer of a body of any kind, from a stream that arrives in any slices, through a writer
    that takes any part of each write: when it completes, the bytes written are one complete
    chunked body, its payload is the body that starts the stream, the rest of the stream is not
    touched, and `body_size` is the length of the payload. -/
theorem bodyToChunked_preserves_body (kind : BodyKind) (src : Source) (w : ω) (maxLen : Nat)
    (config : StreamCopyConfig) (t : H1BodyToChunkedTransfer (Tapped ω))
    (h : (H1BodyToChunkedTransfer.future (Tapped ω)).Completes
      (kind.transfer src (tap w) maxLen config) (.ok ()) t) :
    ∃ wire body, src.content = wire ++ t.state.reader.content ∧
      kind.Delimits wire t.state.reader.content body ∧
      Frame.feed sizeOf Frame.start t.state.writer.log = ⟨.done, body⟩ ∧
      t.bodySize = body.length :=
  (H1BodyToChunkedTransfer.delivered_of_completes kind h).exact

end

/-- The rest of a chunk of five bytes, of which two are left, and a writer that takes one byte,
    stalls, and then takes everything. -/
theorem bodyToChunked_preserves_body_afterPreview :
    ∃ t, (H1BodyToChunkedTransfer.future (Tapped Sink)).Completes
        ((BodyKind.chunkedAfterPreview 2).transfer ⟨ascii "lo\r\n0\r\n\r\nGET", [], by decide⟩
          (tap ⟨[some 1, none]⟩) 64 ⟨8, 4⟩) (.ok ()) t ∧
      t.state.writer.log = ascii "2\r\nlo\r\n0\r\n\r\n" ∧
      ∃ wire body, ascii "lo\r\n0\r\n\r\nGET" = wire ++ t.state.reader.content ∧
        (BodyKind.chunkedAfterPreview 2).Delimits wire t.state.reader.content body ∧
        Frame.feed sizeOf Frame.start t.state.writer.log = ⟨.done, body⟩ ∧
        t.bodySize = body.length := by
  have hrun : (H1BodyToChunkedTransfer.future (Tapped Sink)).Completes
      ((BodyKind.chunkedAfterPreview 2).transfer ⟨ascii "lo\r\n0\r\n\r\nGET", [], by decide⟩
        (tap ⟨[some 1, none]⟩) 64 ⟨8, 4⟩) (.ok ()) _ :=
    Future.drive_completes (n := 40) .start rfl
  exact ⟨_, hrun, rfl, bodyToChunked_preserves_body _ _ _ _ _ _ hrun⟩

/-! ### From hop to hop -/

section

variable [AtoiRadix16] {ω : Type} [AsyncWrite ω]

/-- A relay on the way of a chunked body: what arrives at it, its writer, and how its transfer ended. -/
structure Hop (ω : Type) where
  src : Source
  writer : ω
  maxLen : Nat
  config : StreamCopyConfig
  ended : H1BodyToChunkedTransfer (Tapped ω)

/-- The body `wire` comes to each hop as the one before has written it, in any slices and with
    anything behind it, and each transfer completes. -/
def Relays (wire : Bytes) : List (Hop ω × Bytes) → Prop
  | [] => True
  | (h, rest) :: hops => h.src.content = wire ++ rest ∧
      (H1BodyToChunkedTransfer.future (Tapped ω)).Completes
        ((BodyKind.ofType .chunked).transfer h.src (tap h.writer) h.maxLen h.config) (.ok ())
        h.ended ∧
      Relays h.ended.state.writer.log hops

/-- Every hop writes the body that the first one got, and leaves what is behind it alone. -/
theorem relays_preserve_body (wire body : Bytes) (hops : List (Hop ω × Bytes))
    (hwire : feed sizeOf start wire = ⟨.done, body⟩) (h : Relays wire hops) :
    ∀ x ∈ hops, feed sizeOf start x.1.ended.state.writer.log = ⟨.done, body⟩ ∧
      x.1.ended.bodySize = body.length ∧ x.1.ended.state.reader.content = x.2 := by
  induction hops generalizing wire with
  | nil => nofun
  | cons x hops ih =>
    obtain ⟨hop, rest⟩ := x
    obtain ⟨hsrc, hdone, hnext⟩ := h
    obtain ⟨wire', body', hsplit, hwire', hlog, hsize⟩ :=
      (H1BodyToChunkedTransfer.delivered_of_completes (.ofType .chunked) hdone).exact
    obtain ⟨rfl, rfl⟩ := complete_unique (hsrc.symm.trans hsplit) hwire hwire'
    have hrest := append_cancel_left (hsrc.symm.trans hsplit)
    rintro y (_ | ⟨_, hy⟩)
    · exact ⟨hlog, hsize, hrest.symm⟩
    · exact ih _ hlog hnext y hy

end

/-- A body of two bytes and a request behind it. -/
def bodyAndRequest : Source := ⟨ascii "2\r\nlo\r\n0\r\n\r\nGET", [], by decide⟩

/-- Two hops, with writers that take one byte, stall, and then take everything. -/
theorem relays_preserve_body_twoHops : ∃ t : H1BodyToChunkedTransfer (Tapped Sink),
    let hop := (⟨bodyAndRequest, ⟨[some 1, none]⟩, 64, ⟨8, 4⟩, t⟩, ascii "GET")
    Relays (ascii "2\r\nlo\r\n0\r\n\r\n") [hop, hop] ∧ t.bodySize = 2 ∧
      t.state.reader.content = ascii "GET" := by
  obtain ⟨t, hrun, hlog⟩ : ∃ t, (H1BodyToChunkedTransfer.future (Tapped Sink)).Completes
      ((BodyKind.ofType .chunked).transfer bodyAndRequest (tap ⟨[some 1, none]⟩) 64 ⟨8, 4⟩)
      (.ok ()) t ∧ t.state.writer.log = ascii "2\r\nlo\r\n0\r\n\r\n" :=
    ⟨_, Future.drive_completes (n := 40) .start rfl, rfl⟩
  refine ⟨t, ?_⟩
  intro hop
  have hall : Relays (ascii "2\r\nlo\r\n0\r\n\r\n") [hop, hop] :=
    ⟨rfl, hrun, by rw [hlog]; rfl, hrun, trivial⟩
  exact ⟨hall, (relays_preserve_body _ (ascii "lo") _ (by decide) hall hop (by simp)).2⟩

end Vey.Http
