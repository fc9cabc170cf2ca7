import Vey.Http.BodyFraming
import Vey.Http.DecoderFraming
import Vey.Http.BodyDecoder

/-! Where a chunked body ends, for the two readers of the same stream.

    The pass-through reader follows the strict reading of the framing and the decoding reader,
    with the trailer read behind it, the lenient one. They stop at the same byte of every stream
    that has no bare LF inside a size line or a trailer line, and at different ones of
    `0\n\r\n\r\n`. -/

namespace Vey.Http
open Schemes Vey.Types List LineFrame HttpBodyReader TrailerReader

section

variable [AtoiRadix16] [HttpHeaders]

/-! ### The trailer -/

namespace TrailerReader

/-- A trailer line that is a field. -/
def isField (line : Bytes) : Bool := (parseField line).toOption.isSome

omit [AtoiRadix16] [HttpHeaders] in
/-- A line that has its only LF at its end is blank as the source tests it. -/
theorem isBlank_iff {l : Bytes} (h : lf ∉ l) :
    isBlank (l ++ [lf]) = true ↔ l ++ [lf] = [lf] ∨ l ++ [lf] = [cr, lf] := by
  match l, h with
  | [], _ => simp [isBlank]
  | [a], h =>
    have ha : a ≠ lf := fun e => h (by simp [e])
    simp [isBlank, ha]
  | a :: b :: l, h =>
    have ha : a ≠ lf := fun e => h (by simp [e])
    have hb : b ≠ lf := fun e => h (by simp [e])
    simp [isBlank, ha, hb]

/-- The trailer reader is inside a line of the trailer of a body with payload `body`. -/
def Inv (stream body : Bytes) (t : TrailerReader) : Prop :=
  lf ∉ t.cachedLine ∧ ∃ used, used ++ t.reader.content = stream ∧
    LineFrame.feed sizeOf isField ⟨.trailer [], body⟩ used = ⟨.trailer t.cachedLine, body⟩

def Ended (stream body : Bytes) (_ : H1HeaderMap) (t : TrailerReader) : Prop :=
  ∃ used, used ++ t.reader.content = stream ∧
    LineFrame.feed sizeOf isField ⟨.trailer [], body⟩ used = ⟨.done, body⟩

theorem step_ensures {stream body : Bytes} {t : TrailerReader} (h : t.Inv stream body) :
    t.step.Ensures (Inv stream body) (Ended stream body) := by
  obtain ⟨hno, used, hcont, hfeed⟩ := h
  unfold step
  split
  case h_1 s hf =>
    refine ⟨hno, used, ?_, hfeed⟩
    have := Source.pollFillBuf_content t.reader
    rw [hf] at this
    rw [← hcont]; exact congrArg (used ++ ·) this
  case h_2 => exact trivial
  case h_3 buf s hf =>
    obtain ⟨hbuf, hs, -⟩ := Source.pollFillBuf_ok hf
    have hconsume : ∀ n, (used ++ buf.take n) ++ (s.consume n).content = stream := by
      intro n
      rw [append_assoc, ← hbuf, Source.consume_content, hs, hcont]
    dsimp only
    split
    case isTrue => exact trivial
    case isFalse =>
      split
      case h_1 hm =>
        have hn := memchr_none hm
        split
        case isTrue => exact trivial
        case isFalse =>
          have hall := hconsume buf.length
          rw [take_length] at hall
          refine ⟨by simp [hno, hn], used ++ buf, hall, ?_⟩
          rw [LineFrame.feed_append, hfeed, LineFrame.feed_trailer hn]
      case h_2 p hm =>
        obtain ⟨hn, -⟩ := memchr_some hm
        have hcut := memchr_take hm
        have hl : lf ∉ t.cachedLine ++ buf.take p := by simp [hno, hn]
        have hstep : feed sizeOf isField ⟨.trailer [], body⟩ (used ++ buf.take (p + 1)) =
            ⟨LineFrame.afterTrailer isField (t.cachedLine ++ buf.take p ++ [lf]), body⟩ := by
          rw [LineFrame.feed_append, hfeed, hcut, LineFrame.feed_append, LineFrame.feed_trailer hn]
          simp [LineFrame.step]
        have hline : t.cachedLine ++ buf.take (p + 1) = t.cachedLine ++ buf.take p ++ [lf] := by
          rw [hcut, append_assoc]
        split
        case isTrue => exact trivial
        case isFalse =>
          rw [hline]
          split
          case isTrue hblank =>
            refine ⟨_, hconsume (p + 1), ?_⟩
            rw [hstep, LineFrame.afterTrailer, if_pos ((isBlank_iff hl).mp hblank)]
          case isFalse hblank =>
            split
            case h_1 => exact trivial
            case h_2 name value hp =>
              refine ⟨by simp, _, hconsume (p + 1), ?_⟩
              rw [hstep, LineFrame.afterTrailer, if_neg (fun h => hblank ((isBlank_iff hl).mpr h)),
                if_pos (by rw [isField, hp]; rfl)]

end TrailerReader

/-! ### The decoding reader -/

omit [HttpHeaders] in
/-- The decoding reader has taken the events `used` off the stream `s` and delivered their payload
    `x`. -/
def Decoded (field : Bytes → Bool) (s : Source) (maxSize : Nat) (x : Bytes)
    (r : HttpBodyDecodeReader) : Prop :=
  r.finished = false ∧ r.totalRead = x.length ∧ ∃ used d,
    r.decodeState = some (.chunked d) ∧ (r.readDataDone = true → d.finished = true) ∧
    ChunkedDataDecodeReader.Took field (.new s maxSize) LineFrame.start used x d

omit [HttpHeaders] in
theorem Decoded.pollRead {field : Bytes → Bool} {s : Source} {maxSize cap : Nat} {x y : Bytes}
    {r r' : HttpBodyDecodeReader} {a : IoPoll Bytes} (h : Decoded field s maxSize x r)
    (hp : r.pollRead cap = (a, r')) (ha : a = .ready (.ok y) ∨ a = .pending ∧ y = []) :
    Decoded field s maxSize (x ++ y) r' := by
  obtain ⟨hfin, htot, used, d, hst, hdone, htook⟩ := h
  -- a poll that reads nothing: the body is at its end, or there is no room
  have hstay : (.ready (.ok []), r) = (a, r') → Decoded field s maxSize (x ++ y) r' := by
    rintro ⟨⟩
    obtain rfl : y = [] := by simpa using ha
    exact ⟨hfin, by simpa using htot, used, d, hst, hdone, by simpa using htook⟩
  unfold HttpBodyDecodeReader.pollRead at hp
  split at hp
  case isTrue hd => exact hstay hp
  case isFalse hd =>
    split at hp
    case isTrue => exact hstay hp
    case isFalse hcap =>
      rw [hst] at hp
      have hspec := ChunkedDataDecodeReader.pollRead_spec field htook.tracks cap
      dsimp only at hp
      split at hp
      case h_1 d' hd' =>
        simp only [Prod.mk.injEq] at hp
        obtain ⟨rfl, rfl⟩ := hp
        obtain rfl : y = [] := by simpa using ha
        rw [hd'] at hspec
        obtain ⟨u, hu⟩ := hspec
        exact ⟨hfin, by simpa using htot, _, d', rfl, fun h => absurd h hd, htook.trans hu⟩
      case h_2 => simp only [Prod.mk.injEq] at hp; simp [← hp.1] at ha
      case h_3 z d' hd' =>
        simp only [Prod.mk.injEq] at hp
        obtain ⟨rfl, rfl⟩ := hp
        obtain rfl : z = y := by simpa using ha
        rw [hd'] at hspec
        obtain ⟨-, -, -, u, k, hu, -⟩ := hspec
        refine ⟨hfin, by simp [htot], _, d', rfl, ?_, htook.trans hu⟩
        intro h
        by_contra hf
        simp [hf] at h
        exact hd h

omit [HttpHeaders] in
theorem Decoded.reads (field : Bytes → Bool) {s : Source} {maxSize : Nat} {x : Bytes}
    {r : HttpBodyDecodeReader}
    (hr : Reads HttpBodyDecodeReader.pollRead (.newChunked s maxSize) x r) :
    Decoded field s maxSize x r := by
  induction hr with
  | start =>
    exact ⟨rfl, rfl, [], _, rfl, nofun,
      ChunkedDataDecodeReader.Took.refl (ChunkedDataDecodeReader.tracks_new s maxSize)⟩
  | read _ hp ih => exact ih.pollRead hp (.inl rfl)
  | stall _ hp ih => simpa using ih.pollRead hp (.inr ⟨rfl, rfl⟩)

namespace HttpBodyDecodeReader

/-- A call of `trailer()` on a reader `r` that has its payload: before the checks, then reading the
    trailer of the stream `s`. -/
def TrailerCall.Inv (r : HttpBodyDecodeReader) (d : ChunkedDataDecodeReader) (body : Bytes)
    (c : TrailerCall) : Prop :=
  match c.reading with
  | none => c.body = r
  | some t => c.body.totalRead = r.totalRead ∧ t.Inv d.reader.content body

/-- A call of `trailer()` that is ready has read the rest of the body. -/
theorem TrailerCall.step_ensures {r : HttpBodyDecodeReader} {d : ChunkedDataDecodeReader}
    {body : Bytes} {c : TrailerCall} (hr : r.readDataDone = true) (hf : r.finished = false)
    (hs : r.decodeState = some (.chunked d)) (h : c.Inv r d body) :
    c.step.Ensures (Inv r d body) fun _ c' => c'.body.totalRead = r.totalRead ∧
      ∃ t h', c'.reading = some t ∧ TrailerReader.Ended d.reader.content body h' t := by
  unfold TrailerCall.Inv at h
  unfold step
  split
  case h_1 hn =>
    rw [hn] at h
    simp only [h, hr, hf, hs]
    exact ⟨rfl, by simp [TrailerReader.new], [], by simp [TrailerReader.new], rfl⟩
  case h_2 t ht =>
    rw [ht] at h
    obtain ⟨htot, hinv⟩ := h
    have hstep := TrailerReader.step_ensures hinv
    cases hb : t.step with
    | next t' => rw [hb] at hstep; exact ⟨htot, hstep⟩
    | ret a t' =>
      rw [hb] at hstep
      match a, hstep with
      | .pending, hstep => exact ⟨htot, hstep⟩
      | .ready (.error e), _ => exact trivial
      | .ready (.ok hs), hstep => exact ⟨htot, t', hs, rfl, hstep⟩

end HttpBodyDecodeReader

/-! ### Both readers -/

/-- The two readers, however the stream arrives at each of them and whatever buffers they are read
    with, take the same bytes off it and count the same body size. -/
def SameEnd (stream : Bytes) : Prop :=
  ∀ (s₁ s₂ : Source) (maxLen maxSize trailerMax : Nat) (raw x : Bytes) (r : HttpBodyReader)
    (b : HttpBodyDecodeReader) (h : Option H1HeaderMap) (c : HttpBodyDecodeReader.TrailerCall),
    s₁.content = stream → s₂.content = stream →
    stream.length < maxLen → stream.length < maxSize → stream.length < trailerMax →
    Reads HttpBodyReader.pollRead (.newChunked s₁ maxLen) raw r → r.finished = true →
    Reads HttpBodyDecodeReader.pollRead (.newChunked s₂ maxSize) x b → b.readDataDone = true →
    HttpBodyDecodeReader.trailer.Completes ⟨b, trailerMax, none⟩ (.ok h) c →
    ∃ t, c.reading = some t ∧ r.stream.content = t.reader.content ∧ r.bodySize = c.body.bodySize

theorem sameEnd_of_noBareLf (stream : Bytes)
    (hclean : noBareLf sizeOf Frame.start stream = true) : SameEnd stream := by
  intro s₁ s₂ maxLen maxSize trailerMax raw x r b h c hs₁ hs₂ _ _ _ hr hfin hb hdone hc
  -- the strict body
  obtain ⟨taken, htaken, hes⟩ := (tracks_newChunked s₁ maxLen).reads hr
  have htr := htaken ▸ hes.tracks
  have hcont : raw ++ r.stream.content = s₁.content := htaken ▸ hes.content
  have hraw := htr.done hfin
  -- the lenient body: payload, then trailer
  obtain ⟨hbf, htot, es, d, hst, hdf, htook⟩ := Decoded.reads isField hb
  obtain ⟨used, hused⟩ : ∃ used, bytesOf es = used := ⟨_, rfl⟩
  have hinv : HttpBodyDecodeReader.TrailerCall.Inv b d x ⟨b, trailerMax, none⟩ := rfl
  obtain ⟨hctot, t, _, hread, used', hcont', hended⟩ := Future.Completes.ensures
    (fun hI => hI) (HttpBodyDecodeReader.TrailerCall.step_ensures hdone hbf hst) hinv hc
  have hpay : feed sizeOf isField start used =
      ⟨.trailer [], x⟩ := by
    have hd := hdf hdone
    simp only [ChunkedDataDecodeReader.finished, Bool.and_eq_true, beq_iff_eq] at hd
    have hst' := htook.tracks.st
    rw [hused] at hst'
    simp only [ChunkedDataDecodeReader.lineSt, hd, if_true] at hst'
    have hbody := htook.body
    rw [hused, show start.body = [] from rfl, nil_append] at hbody
    generalize feed sizeOf isField start used = g at hst' hbody
    rw [hst', ← hbody]
  have hall : feed sizeOf isField start (used ++ used') =
      ⟨.done, x⟩ := by
    rw [LineFrame.feed_append, hpay, hended]
  have hsplit : raw ++ r.stream.content = used ++ used' ++ t.reader.content := by
    rw [append_assoc, hcont', ← hused, htook.stream]
    exact hcont.trans (hs₁.trans hs₂.symm)
  have hstream : raw ++ r.stream.content = stream := hcont.trans hs₁
  rw [← hstream] at hclean
  obtain ⟨hbytes, hbody⟩ := strict_eq_lenient hclean hsplit hraw hall
  refine ⟨t, hread, ?_, ?_⟩
  · rw [hbytes] at hsplit
    exact append_cancel_left hsplit
  · rw [bodySize, htr.size, hbody, HttpBodyDecodeReader.bodySize, hctot, htot]

end

/-- A body with a trailer in front of another request: both readers leave that request. -/
theorem sameEnd_hello :
    noBareLf sizeOf Frame.start (ascii "5\r\nhello\r\n0\r\nA: b\r\n\r\nGET") = true ∧
    SameEnd (ascii "5\r\nhello\r\n0\r\nA: b\r\n\r\nGET") ∧
    (∃ raw r, Reads HttpBodyReader.pollRead
      (.newChunked ⟨ascii "5\r\nhello\r\n0\r\nA: b\r\n\r\nGET", [], by decide⟩ 64) raw r ∧
      r.finished = true ∧ r.stream.content = ascii "GET") ∧
    ∃ x b c, Reads HttpBodyDecodeReader.pollRead
      (.newChunked ⟨ascii "5\r\nhello\r\n0\r\nA: b\r\n\r\nGET", [], by decide⟩ 64) x b ∧
      b.readDataDone = true ∧ x = ascii "hello" ∧
      HttpBodyDecodeReader.trailer.Completes ⟨b, 64, none⟩
        (.ok (some [(ascii "a", ⟨ascii "b", none⟩)])) c := by
  refine ⟨by decide, sameEnd_of_noBareLf _ (by decide), ?_, ?_⟩
  · exact ⟨_, _, reads_of_readWith [7, 64] .start rfl, rfl, rfl⟩
  · exact ⟨_, _, _, reads_of_readWith [3, 64] .start rfl, rfl, rfl,
      Future.drive_completes (n := 5) .start rfl⟩

/-- A bare LF behind the size: the pass-through reader goes on to the CR and takes six bytes, the
    decoding reader ends the line at the LF and takes four. -/
theorem not_sameEnd_bare_lf : ¬ SameEnd (ascii "0\n\r\n\r\n") := by
  intro h
  have hraw : Reads pollRead (.newChunked ⟨ascii "0\n\r\n\r\n", [], by decide⟩ 64)
      (ascii "0\n\r\n\r\n") _ := reads_of_readWith [16] .start rfl
  have hdec : Reads HttpBodyDecodeReader.pollRead
      (.newChunked ⟨ascii "0\n\r\n\r\n", [], by decide⟩ 64) []
      { readDataDone := true, finished := false, totalRead := 0
        decodeState := some (.chunked
          { reader := ⟨ascii "\r\n\r\n", [], by decide⟩, bodyLineMaxSize := 64
            chunkHeader := ascii "0\n", pollChunkEnd := true }) } :=
    reads_of_readWith [16] .start rfl
  obtain ⟨t, ht, hc, -⟩ := h _ _ 64 64 64 _ _ _ _ _ _ rfl rfl (by decide) (by decide) (by decide)
    hraw rfl hdec rfl (Future.drive_completes (n := 4) .start rfl)
  simp only [Option.some.injEq] at ht
  rw [← ht] at hc
  revert hc
  decide

end Vey.Http
