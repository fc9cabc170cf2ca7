import Vey.H2.Preview
import Vey.H2.ToChunked

/-! The preview of an HTTP/2 body and the transfer of its rest.

        recv_all / recv_initial
          |-- 100: icap_write_preview_data, then the transfer          two bodies
          |-- 204: write_as_chunk, then the transfer                   one body
          |-- end of data: icap_write_all_as_chunked, without_data     one body

    The transfer starts with the left-over of the preview as its first chunk, or with a new frame. -/

namespace Vey.Icap
open Schemes Http IoExt H2 List Frame WriteAllVectored RecvPreview

section
variable {ω : Type}

/-- The transfer behind a preview. -/
def bodyTransfer (p : H2PreviewData) (cltBody : RecvStream) (writer : ω) (yieldSize : Nat) :
    H2StreamToChunkedTransfer ω :=
  match p.left with
  | some left =>
    (H2StreamToChunkedTransfer.withChunk cltBody writer yieldSize left).addCopied p.previewSize
  | none => (H2StreamToChunkedTransfer.new cltBody writer yieldSize).addCopied p.previewSize

end

section

variable [AtoiRadix16] {ω : Type} {all front : Bytes}
  {trailers : TrailersResult} {p : H2PreviewData} {b : RecvStream} {w : Tapped ω}

/-- The transfer starts behind complete chunks. -/
theorem inv_bodyTransfer (h : p.Fronts all trailers b) (yieldSize : Nat)
    (hlog : feed sizeOf Frame.start w.log = ⟨.sizeLine [], front⟩) :
    (bodyTransfer p b w yieldSize).Inv front p.buffer.length trailers
      (p.left.getD [] ++ b.body) := by
  rw [bodyTransfer]
  cases hleft : p.left with
  | none =>
    refine ⟨[], rfl, Nat.zero_add _, ⟨rfl, ?_⟩, h.trailers, fun _ => rfl, nofun, nofun,
      fun hne => absurd rfl hne, fun _ _ => rfl, nofun, nofun⟩
    rw [append_nil]
    exact (congrArg (feed sizeOf Frame.start) (append_nil w.log)).trans hlog
  | some left =>
    obtain ⟨hne, hfits⟩ := h.left left hleft
    refine ⟨[], rfl, Nat.zero_add _, ⟨rfl, ?_⟩, h.trailers, fun _ => rfl, ?_, nofun,
      fun hne => absurd rfl hne, nofun, nofun, nofun⟩
    · obtain ⟨x, xs, rfl⟩ := exists_cons_of_ne_nil hne
      rw [append_nil]
      change feed sizeOf Frame.start (w.log ++ (hexFmt (x :: xs).length ++ [cr, lf])) = _
      rw [feed_append, hlog, feed_hexFmt hfits]
      rfl
    · exact fun he => hne (Option.some.inj he)

/-- Without data only the trailer is left. -/
theorem inv_withoutData (htr : b.trailers = trailers) (harr : b.arrivals = [])
    (hlog : feed sizeOf Frame.start w.log = ⟨.trailer 0, front⟩) :
    (H2StreamToChunkedTransfer.withoutData b w).Inv front 0 trailers [] := by
  refine ⟨[], ?_, rfl, ?_, htr, fun _ => rfl, nofun, fun _ => ⟨rfl, harr⟩, fun _ => rfl, nofun,
    nofun, nofun⟩
  · exact RecvStream.body_nil harr
  · rw [append_nil]
    exact hlog

/-- A preview as one chunk. -/
theorem feed_chunk {data : Bytes} (hne : data ≠ []) (hfits : data.length < 2 ^ 64) :
    feed sizeOf Frame.start (hexFmt data.length ++ [cr, lf] ++ data) = ⟨.dataCr, data⟩ := by
  obtain ⟨x, xs, rfl⟩ := exists_cons_of_ne_nil hne
  have hdata : feed sizeOf ⟨.data (x :: xs).length, []⟩ (x :: xs) = _ :=
    feed_data le_rfl (Nat.succ_pos xs.length)
  rw [feed_append, Frame.start, feed_hexFmt hfits]
  exact hdata.trans (by rw [Nat.sub_self]; rfl)

theorem feed_writeAsChunk (h : p.Fronts all trailers b) (w : ω) :
    feed sizeOf Frame.start (p.writeAsChunk w).left.flatten = ⟨.sizeLine [], p.buffer⟩ := by
  rw [left, H2PreviewData.writeAsChunk]
  by_cases hnil : p.buffer = []
  · rw [if_pos hnil, hnil]
    rfl
  · rw [if_neg hnil]
    have htext : (wBufs [hexFmt p.buffer.length ++ [cr, lf], p.buffer, [cr, lf]]
        0 0).flatten = hexFmt p.buffer.length ++ [cr, lf] ++ p.buffer ++ [cr, lf] := by
      simp [wBufs]
    rw [htext, feed_append, feed_chunk hnil h.room]
    exact feed_dataCr_crlf _

omit [AtoiRadix16] in
theorem endsFull_writeAsChunk (w : ω) : EndsFull (p.writeAsChunk w).left := by
  rw [left, H2PreviewData.writeAsChunk, wBufs_zero]
  split
  · nofun
  · exact endsFull_concat [_, _] (by decide)

theorem feed_icapWritePreviewData (h : p.Fronts all trailers b) (hne : p.buffer ≠ []) (w : ω) :
    feed sizeOf Frame.start (p.icapWritePreviewData w).left.flatten = ⟨.done, p.buffer⟩ := by
  have htext : (p.icapWritePreviewData w).left.flatten =
      hexFmt p.buffer.length ++ [cr, lf] ++ p.buffer ++ ([cr, lf] ++ ascii "0\r\n\r\n") := by
    have hend : ascii "\r\n0\r\n\r\n" = [cr, lf] ++ ascii "0\r\n\r\n" := by decide
    simp [left, wBufs, H2PreviewData.icapWritePreviewData, hend]
  rw [htext, feed_append, feed_chunk hne h.room, feed_dataCr]
  exact feed_lastChunk _

omit [AtoiRadix16] in
theorem endsFull_icapWritePreviewData (w : ω) : EndsFull (p.icapWritePreviewData w).left := by
  rw [left, H2PreviewData.icapWritePreviewData, wBufs_zero]
  exact endsFull_concat [_, _] (by decide)

theorem feed_icapWriteAllAsChunked (h : p.Fronts all trailers b) (hend : p.endOfData = true)
    (w : ω) : feed sizeOf Frame.start (p.icapWriteAllAsChunked w).left.flatten =
      ⟨.trailer 0, p.buffer⟩ := by
  have hleft := (h.fin hend).1
  have hrec := h.received
  rw [hleft, Option.getD_none, length_nil, Nat.add_zero] at hrec
  have hlast : ascii "0\r\n" = hexFmt 0 ++ [cr, lf] := by decide
  rw [left, H2PreviewData.icapWriteAllAsChunked, hleft, hrec]
  by_cases hnil : p.buffer = []
  · rw [hnil, length_nil, if_pos rfl]
    have htext : (wBufs [ascii "0\r\n"] 0 0).flatten = ascii "0\r\n" := by decide
    rw [htext, hlast]
    exact feed_hexFmt (by decide) []
  · rw [if_neg (fun hz => hnil (length_eq_zero_iff.mp hz))]
    have htext : (wBufs [hexFmt p.buffer.length ++ [cr, lf], p.buffer,
        ascii "\r\n0\r\n"] 0 0).flatten =
        hexFmt p.buffer.length ++ [cr, lf] ++ p.buffer ++ ([cr, lf] ++ (hexFmt 0 ++ [cr, lf])) := by
      have hend : ascii "\r\n0\r\n" = [cr, lf] ++ (hexFmt 0 ++ [cr, lf]) := by decide
      simp [wBufs, hend]
    rw [htext, feed_append, feed_chunk hnil h.room, feed_dataCr]
    exact feed_hexFmt (by decide) _

omit [AtoiRadix16] in
theorem endsFull_icapWriteAllAsChunked (w : ω) : EndsFull (p.icapWriteAllAsChunked w).left := by
  rw [left, H2PreviewData.icapWriteAllAsChunked, wBufs_zero]
  split
  · exact endsFull_concat [] (by decide)
  · split
    · exact endsFull_concat [_, _, _] (by decide)
    · exact endsFull_concat [_, _] (by decide)

end

/-! ### The body survives the preview -/

section

variable [AtoiRadix16] {ω : Type} [FairFlush ω] {all front : Bytes}
  {trailers : TrailersResult} {p : H2PreviewData} {b : RecvStream}

/-- One chunked body with this payload, and behind it the trailer of the stream. -/
def Carries (b : RecvStream) (body log : Bytes) : Prop :=
  Frame.feed sizeOf Frame.start log = ⟨.done, body⟩ ∧
    ∃ t, b.trailers = .ok t ∧ trailerSection t <:+ log

omit [FairFlush ω] in
theorem IsChunked.carries {body log : Bytes} (h : IsChunked b.trailers body log) :
    Carries b body log := by
  refine ⟨h.feed, ?_⟩
  obtain ⟨t, data, ht, rfl, -⟩ := h
  exact ⟨t, ht, suffix_append data _⟩

/-- A preview is written as it is. -/
theorem gives_feed {x : WriteAllVectored (Tapped ω)} {f : Frame} (hfull : EndsFull x.left)
    (hlog : x.writer.log = []) (hfeed : feed sizeOf Frame.start x.left.flatten = f) :
    (future (Tapped ω)).Gives x fun _ y => feed sizeOf Frame.start y.writer.log = f := by
  refine (gives hfull).mono fun {_ y} hy => ?_
  rw [hy, hlog]
  exact hfeed

/-- The transfer behind complete chunks with the payload `front` ends the body. -/
theorem gives_bodyTransfer (h : p.Fronts all b.trailers b) (hb : b.Sound) (yieldSize : Nat)
    {w : Tapped ω} (hlog : feed sizeOf Frame.start w.log = ⟨.sizeLine [], front⟩) :
    (H2StreamToChunkedTransfer.future (Tapped ω)).Gives (bodyTransfer p b w yieldSize)
      fun _ y => Carries b (front ++ (p.left.getD [] ++ b.body)) y.writer.log ∧
        y.copied = all.length := by
  have hsound : (bodyTransfer p b w yieldSize).recvStream.Sound := by
    rw [bodyTransfer]
    split <;> exact hb
  refine (H2StreamToChunkedTransfer.gives_encoded (inv_bodyTransfer h yieldSize hlog)
    hsound).mono fun {_ y} henc => ?_
  refine ⟨IsChunked.carries henc.1, henc.2.trans ?_⟩
  rw [← h.split, append_assoc]
  exact length_append.symm

/-- The preview of a body, and what is written behind it, is the body: after a preview, as the rest
    of the body behind it; without one, as one body. -/
theorem h2_preview_restores_body (size : UInt64) (hsize : 1 ≤ size.toNat) (b : RecvStream)
    (hb : b.Sound) (start : RecvPreview)
    (hstart : start = .recvAll size b ∨ ∃ polls, start = .recvInitial size b polls) :
    RecvPreview.future.Gives start fun _ t => ∀ (w : ω) (yieldSize : Nat),
      -- the preview is a body of its own, and the rest of the body another one
      (t.preview.endOfData = false → (start = .recvAll size b ∨ t.preview.previewSize ≠ 0) →
        (WriteAllVectored.future (Tapped ω)).Gives (t.preview.icapWritePreviewData (tap w))
          fun _ x => Frame.feed sizeOf Frame.start x.writer.log = ⟨.done, t.preview.buffer⟩) ∧
      (H2StreamToChunkedTransfer.future (Tapped ω)).Gives
        (bodyTransfer t.preview t.cltBody (tap w) yieldSize) (fun _ y =>
          ∃ rest, t.preview.buffer ++ rest = b.body ∧ Carries b rest y.writer.log ∧
            y.copied = b.body.length) ∧
      -- the preview is the first chunk
      (WriteAllVectored.future (Tapped ω)).Gives (t.preview.writeAsChunk (tap w)) (fun _ x =>
        (H2StreamToChunkedTransfer.future (Tapped ω)).Gives
          (bodyTransfer t.preview t.cltBody x.writer yieldSize) fun _ y =>
            Carries b b.body y.writer.log ∧ y.copied = b.body.length) ∧
      -- the preview is all of the data
      (t.preview.endOfData = true →
        (WriteAllVectored.future (Tapped ω)).Gives (t.preview.icapWriteAllAsChunked (tap w))
          fun _ x => (H2StreamToChunkedTransfer.future (Tapped ω)).Gives
            (.withoutData t.cltBody x.writer) fun _ y => Carries b b.body y.writer.log) := by
  have hfills : start.Fills size b.body b.trailers ∧ start.cltBody = b := by
    rcases hstart with rfl | ⟨polls, rfl⟩
    · exact ⟨fills_recvAll size b, rfl⟩
    · exact ⟨fills_recvInitial size b polls, rfl⟩
  refine (gives_received hfills.1 (hfills.2.symm ▸ hb)).mono ?_
  rintro - t ⟨⟨hfronts, hfull⟩, hsound, hall⟩ w yieldSize
  have htr := hfronts.trailers
  have hcarries : ∀ {body log}, Carries t.cltBody body log → Carries b body log := by
    rintro body log ⟨hfeed, hsuffix⟩
    exact ⟨hfeed, htr ▸ hsuffix⟩
  have hbody : t.preview.buffer ++ (t.preview.left.getD [] ++ t.cltBody.body) = b.body := by
    rw [← append_assoc, hfronts.split]
  have hfronts' : t.preview.Fronts b.body t.cltBody.trailers t.cltBody := htr.symm ▸ hfronts
  refine ⟨?_, ?_, ?_, ?_⟩
  · intro hend hne
    refine gives_feed (endsFull_icapWritePreviewData _) rfl
      (feed_icapWritePreviewData hfronts (fun hnil => ?_) _)
    rcases hne with rfl | hne
    · have hlen := hfull (hall rfl) hend
      rw [hnil, length_nil] at hlen
      omega
    · exact hne (congrArg length hnil)
  · refine (gives_bodyTransfer hfronts' hsound yieldSize rfl).mono fun {_ y} hy => ?_
    exact ⟨_, hbody, hcarries hy.1, hy.2⟩
  · have hfeed := feed_writeAsChunk hfronts (tap w)
    refine (gives_feed (endsFull_writeAsChunk _) rfl hfeed).mono fun {_ x} hx => ?_
    refine (gives_bodyTransfer hfronts' hsound yieldSize hx).mono fun {_ y} hy => ?_
    exact ⟨hbody ▸ hcarries hy.1, hy.2⟩
  · intro hend
    obtain ⟨hleft, harr⟩ := hfronts.fin hend
    have hfeed := feed_icapWriteAllAsChunked hfronts hend (tap w)
    refine (gives_feed (endsFull_icapWriteAllAsChunked _) rfl hfeed).mono fun {_ x} hx => ?_
    refine (H2StreamToChunkedTransfer.gives_encoded (inv_withoutData htr harr hx)
      hsound).mono fun {_ y} hy => ?_
    rw [hleft, RecvStream.body_nil harr, Option.getD_none, nil_append] at hbody
    exact hbody ▸ IsChunked.carries hy.1

end

/-- Three frames, an empty one among them, and a trailer. -/
def threeFrames : RecvStream where
  arrivals := [.data ⟨ascii "hel", .ok (), by decide⟩, .data ⟨[], .ok (), nil_fits⟩, .stall,
    .data ⟨ascii "lo world", .ok (), by decide⟩]
  closed := false
  trailerStalls := 1
  trailers := .ok (some [⟨ascii "x", ascii "1", by decide, by decide⟩])

/-- A preview of four bytes, and a writer that stalls and takes one byte at first. -/
theorem h2_preview_restores_body_threeFrames :
    threeFrames.body = ascii "hello world" ∧
    (RecvPreview.future.drive 6 (.recvAll 4 threeFrames)).map (·.2.preview.buffer) =
      some (ascii "hell") ∧
    RecvPreview.future.Gives (.recvAll 4 threeFrames) fun _ t =>
      (WriteAllVectored.future (Tapped FairSink)).Gives
        (t.preview.writeAsChunk (tap ⟨[some 0, none], [true]⟩)) fun _ x =>
          (H2StreamToChunkedTransfer.future (Tapped FairSink)).Gives
            (bodyTransfer t.preview t.cltBody x.writer 64) fun _ y =>
              Carries threeFrames threeFrames.body y.writer.log ∧
                y.copied = threeFrames.body.length := by
  have hsound : threeFrames.Sound := by
    refine ⟨?_, ?_, _, rfl⟩
    · intro e he
      simp [threeFrames] at he
    · intro f hf
      simp only [threeFrames, mem_cons, FrameArrival.data.injEq, not_mem_nil] at hf
      rcases hf with rfl | rfl | h | rfl | h
      · rfl
      · rfl
      · cases h
      · rfl
      · cases h
  refine ⟨by decide, by decide, ?_⟩
  have h := h2_preview_restores_body (ω := FairSink) 4 (by decide) threeFrames hsound _ (.inl rfl)
  exact h.mono fun {_ t} ht => (ht ⟨[some 0, none], [true]⟩ 64).2.2.1

end Vey.Icap
