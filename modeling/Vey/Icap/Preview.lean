import Vey.Http.DecoderFraming
import Vey.Http.BodyToChunked

/-! `xfer_with_preview` for a chunked body: decode a preview, hand the rest of the stream over.

        reading --full or end of body--> handover --chunk end open--> finishing
                                            |                            |
                                         small / more(left)           more(left)

    The rest goes out through `H1BodyToChunkedTransfer::new_chunked_after_preview`, and all it gets
    of the decoder is the stream and `left_chunk_size()`. A decoder that has taken a part of a
    size line is not described by that number: the bytes of the part are lost. The poll that fills
    the preview leaves the decoder so when the stream stalls inside the next size line. -/

namespace Vey.Icap
open Schemes Http IoExt List Frame ChunkedDataDecodeReader

/-- The errors of this part of the adaptation. -/
inductive H1ReqmodAdaptationError where
  | httpClientReadFailed (e : IoError)

/-- How the read of a preview ends: with the whole body, with `left` bytes of a chunk to come, or
    with the internal error "broken chunked encoding after preview read". -/
inductive PreviewEnd where
  | small
  | more (left : Nat)
  | broken

inductive PreviewAt where
  | reading
  | handover
  | finishing

/-- `xfer_with_preview` up to the point where the preview is sent. -/
structure XferPreview where
  decoder : ChunkedDataDecodeReader
  maxSize : Nat
  previewBuf : Bytes := []
  pc : PreviewAt := .reading

namespace XferPreview

abbrev Step := Ctrl XferPreview (Poll (Except H1ReqmodAdaptationError PreviewEnd))

def new (cltBodyIo : Source) (httpBodyLineMaxSize previewSize : Nat) : XferPreview where
  decoder := .new cltBodyIo httpBodyLineMaxSize
  maxSize := previewSize

/-- The end of a hand-over: `left_chunk_size().ok_or_else(..)`. -/
def leftChunkSize (p : XferPreview) : PreviewEnd :=
  match p.decoder.leftSize with
  | some left => .more left
  | none => .broken

variable [AtoiRadix16] (p : XferPreview)

/-- `read_preview_data`. The idle timer of its `select!` only polls the read again. -/
def readPreviewData : Step :=
  if p.previewBuf.length < p.maxSize then
    match p.decoder.pollRead (p.maxSize - p.previewBuf.length) with
    | (.pending, d) => .ret .pending { p with decoder := d }
    | (.ready (.error e), d) =>
      .ret (.ready (.error (.httpClientReadFailed e))) { p with decoder := d }
    | (.ready (.ok x), d) =>
      if x.length = 0 then .next { p with decoder := d, pc := .handover }
      else .next { p with decoder := d, previewBuf := p.previewBuf ++ x }
  else .next { p with pc := .handover }

def handover : Step :=
  if p.decoder.finished then .ret (.ready (.ok .small)) p
  else if p.decoder.leftSize.isNone then .next { p with pc := .finishing }
  else .ret (.ready (.ok p.leftChunkSize)) p

def finishing : Step :=
  match p.decoder.finishChunkEndStep with
  | .next d => .next { p with decoder := d }
  | .ret .pending d => .ret .pending { p with decoder := d }
  | .ret (.ready (.error e)) d =>
    .ret (.ready (.error (.httpClientReadFailed e))) { p with decoder := d }
  | .ret (.ready (.ok _)) d =>
    let p := { p with decoder := d }
    .ret (.ready (.ok p.leftChunkSize)) p

def step : Step :=
  match p.pc with
  | .reading => p.readPreviewData
  | .handover => p.handover
  | .finishing => p.finishing

def future : Future XferPreview (Except H1ReqmodAdaptationError PreviewEnd) := ⟨id, step⟩

end XferPreview

/-! ### Where the preview is cut -/

/-- Behind the first byte of a size line and not yet at its end. -/
def midSizeLine : FrameSt → Bool
  | .sizeLine line => !line.isEmpty
  | .sizeLf _ => true
  | _ => false

/-- The `max` payload bytes end with their chunk, and the first stall behind them is inside the next
    size line. -/
def stallsInSizeLine [AtoiRadix16] (max : Nat) : Frame → List Event → Bool
  | _, [] => false
  | f, .byte b :: es => stallsInSizeLine max (Frame.step sizeOf f b) es
  | f, .stall :: es =>
    if f.body.length < max then stallsInSizeLine max f es
    -- with more payload before the stall the preview ends inside a chunk
    else f.body.length == max && midSizeLine f.st
  | _, .fail _ :: _ => false

theorem stallsInSizeLine_bytes [AtoiRadix16] {max : Nat} {es : List Event} :
    ∀ (bs : Bytes) (f : Frame), stallsInSizeLine max f (bs.map .byte ++ es) =
      stallsInSizeLine max (feed sizeOf f bs) es
  | [], _ => rfl
  | b :: bs, f => stallsInSizeLine_bytes bs (step sizeOf f b)

/-! ### The preview and the rest -/

section

variable [AtoiRadix16]

/-- The stream starts with the well-formed chunked body `wire`, which decodes to `body`. -/
structure StartsWithBody (stream wire rest body : Bytes) : Prop where
  split : stream = wire ++ rest
  frame : Frame.feed sizeOf Frame.start wire = ⟨.done, body⟩
  clean : noBareLf sizeOf Frame.start wire = true

-- the decoder never looks at a trailer line, so the fields of the lenient reading are left open
def anyField (_ : Bytes) : Bool := true

namespace XferPreview

variable {s : Source} {lineMax : Nat} {es : List Event} {wire rest body x : Bytes}
  {d : ChunkedDataDecodeReader}

/-- The decoder over the stream `s` has taken `es` and delivered the payload `x`. -/
abbrev Taken (s : Source) (lineMax : Nat) (es : List Event) (x : Bytes)
    (d : ChunkedDataDecodeReader) : Prop :=
  ChunkedDataDecodeReader.Took anyField (.new s lineMax) LineFrame.start es x d

/-- The strict reading of what the decoder has taken is at the same place. -/
theorem Taken.place (h : Taken s lineMax es x d) (hb : StartsWithBody s.content wire rest body) :
    ∃ v, wire = bytesOf es ++ v ∧ v ++ rest = d.reader.content ∧
      Sim (feed sizeOf start (bytesOf es))
        (LineFrame.feed sizeOf anyField LineFrame.start (bytesOf es)) ∧
      (feed sizeOf start (bytesOf es)).st ≠ .bad ∧
      (feed sizeOf start (bytesOf es)).body = x := by
  obtain ⟨hbad, hdone⟩ := h.tracks.live_st
  have hstream : bytesOf es ++ d.reader.content = wire ++ rest := h.stream.trans hb.split
  obtain ⟨v, hv, hsim⟩ := lenient_inside hb.clean hstream hb.frame hbad hdone
  have hst : (feed sizeOf start (bytesOf es)).st ≠ .bad := by
    intro h0
    have hw := hb.frame
    rw [hv, feed_append] at hw
    generalize feed sizeOf start (bytesOf es) = f at h0 hw
    obtain ⟨st, y⟩ := f
    simp only at h0
    rw [h0, feed_bad] at hw
    simp at hw
  refine ⟨v, hv, ?_, hsim, hst, ?_⟩
  · rw [hv, append_assoc] at hstream
    exact (append_cancel_left hstream).symm
  · rw [hsim.body_eq hst hbad, h.body]; rfl

/-- The decoder is through, or no part of a size line is in it. -/
def Stopped (d : ChunkedDataDecodeReader) : Prop :=
  d.finished = true ∨ d.pollChunkEnd = false ∧ d.chunkHeader = []

omit [AtoiRadix16] in
theorem stopped_of_not_mid {f : Frame} {g : LineFrame} (ht : d.Tracks g) (hsim : Sim f g)
    (hbad : f.st ≠ .bad) (hmid : midSizeLine f.st = false)
    (hend : d.finished = true ∨ d.pollChunkEnd = false) : Stopped d := by
  rcases hend with hfin | he
  · exact .inl hfin
  refine .inr ⟨he, ?_⟩
  by_cases hends : d.endsChunk = true
  · exact (ht.ends hends).2.1
  by_cases hl : 0 < d.leftChunkSize
  · exact (ht.live hl).2
  -- what is left is the size line, where both readings have the same part of it
  simp only [Bool.or_eq_true, not_or, Bool.not_eq_true] at hends
  have hst := ht.st
  simp only [lineSt, he, hends, hl, Bool.false_eq_true, if_false] at hst
  cases hsim with
  | sizeLine line x =>
    simp only [LineFrameSt.sizeLine.injEq] at hst
    simpa [midSizeLine, ← hst] using hmid
  | sizeLf line x => simp [midSizeLine] at hmid
  | rejected => simp at hst
  | broken => exact absurd rfl hbad
  | _ => simp at hst

/-- The law at each point of the preview. -/
def Inv (s : Source) (lineMax : Nat) (p : XferPreview) : Prop :=
  ∃ es, Taken s lineMax es p.previewBuf p.decoder ∧
    match p.pc with
    | .reading => p.previewBuf.length ≤ p.maxSize ∧
        if p.previewBuf.length < p.maxSize then
          stallsInSizeLine p.maxSize (Frame.feed sizeOf Frame.start (bytesOf es))
            p.decoder.reader.events = false
        else Stopped p.decoder
    | .handover => Stopped p.decoder
    | .finishing => p.decoder.endsChunk = true

/-- What is handed over describes the decoder. -/
def Handed (s : Source) (lineMax : Nat) (fin : PreviewEnd) (p : XferPreview) : Prop :=
  match fin with
  | .small => True
  | .more left => left < 2 ^ 64 ∧ ∃ es, Taken s lineMax es p.previewBuf p.decoder ∧
      p.decoder.lineSt = if left = 0 then .sizeLine [] else .data left
  | .broken => False

variable {p : XferPreview}

theorem readPreviewData_ensures (hb : StartsWithBody s.content wire rest body)
    (h : p.Inv s lineMax) (hpc : p.pc = .reading) :
    p.readPreviewData.Ensures (Inv s lineMax) (Handed s lineMax) := by
  obtain ⟨es, ht, h⟩ := h
  rw [hpc] at h
  obtain ⟨hlen, hrest⟩ := h
  unfold readPreviewData
  split
  case isFalse hfull =>
    rw [if_neg hfull] at hrest
    exact ⟨es, ht, hrest⟩
  case isTrue hroom =>
    rw [if_pos hroom] at hrest
    have hspec := pollRead_spec anyField ht.tracks
      (p.maxSize - p.previewBuf.length)
    split
    case h_1 d hp =>
      rw [hp] at hspec
      obtain ⟨used, htook⟩ := hspec
      have hnext : Taken s lineMax _ _ d := ht.trans htook
      rw [append_nil] at hnext
      refine ⟨_, hnext, ?_⟩
      obtain ⟨-, -, -, -, -, hbody⟩ := hnext.place hb
      rw [← htook.script, append_assoc, stallsInSizeLine_bytes, ← feed_append] at hrest
      simp only [bytesOf_append, bytesOf_map_byte, bytesOf_stall, append_nil] at hbody ⊢
      simp only [singleton_append, stallsInSizeLine, hbody, if_pos hroom] at hrest
      rw [hpc]
      exact ⟨hlen, by rw [if_pos hroom]; exact hrest⟩
    case h_2 => exact trivial
    case h_3 x d hp =>
      rw [hp] at hspec
      obtain ⟨hx, hstop, hend, used, stalled, htook, hwhy⟩ := hspec
      have hnext : Taken s lineMax _ _ d := ht.trans htook
      split
      case isTrue h0 =>
        obtain rfl : x = [] := length_eq_zero_iff.mp h0
        rw [append_nil] at hnext
        exact ⟨_, hnext, .inl (hstop (by omega) rfl)⟩
      case isFalse hne =>
        refine ⟨_, hnext, ?_⟩
        obtain ⟨-, -, -, hsim, hbad, hbody⟩ := hnext.place hb
        have htr := hnext.tracks
        rw [← htook.script, append_assoc, stallsInSizeLine_bytes, ← feed_append] at hrest
        have hbytes : bytesOf (es ++ (used.map .byte ++ stallIf stalled)) =
            bytesOf es ++ used := by
          cases stalled <;> simp [stallIf]
        rw [hbytes] at hsim hbad hbody htr ⊢
        rw [hpc]
        refine ⟨by simp only [length_append]; omega, ?_⟩
        cases stalled with
        | false =>
          simp only [stallIf, Bool.false_eq_true, if_false,
            nil_append] at hrest
          split
          · exact hrest
          · rcases hwhy rfl with hfin | hl
            · exact .inl hfin
            · rcases hend with hfin | he
              · exact .inl hfin
              · exact .inr ⟨he, (htr.live hl).2⟩
        | true =>
          simp only [stallIf, if_true, singleton_append,
            stallsInSizeLine, hbody] at hrest
          split
          case isTrue hlt => rw [if_pos hlt] at hrest; exact hrest
          case isFalse hge =>
            have hfull : (p.previewBuf ++ x).length = p.maxSize := by
              simp only [length_append] at hge ⊢
              omega
            rw [if_neg hge, beq_iff_eq.mpr hfull, Bool.true_and] at hrest
            exact stopped_of_not_mid htr hsim hbad hrest hend

theorem handover_ensures (h : p.Inv s lineMax) (hpc : p.pc = .handover) :
    p.handover.Ensures (Inv s lineMax) (Handed s lineMax) := by
  obtain ⟨es, ht, h⟩ := h
  rw [hpc] at h
  unfold handover
  split
  case isTrue => exact trivial
  case isFalse hfin =>
    obtain ⟨he, hhdr⟩ : p.decoder.pollChunkEnd = false ∧ p.decoder.chunkHeader = [] :=
      h.resolve_left hfin
    by_cases hends : p.decoder.endsChunk = true
    · rw [if_pos (by simp [leftSize, hends])]
      exact ⟨es, ht, hends⟩
    · have hleft : p.decoder.leftSize = some p.decoder.leftChunkSize := if_neg hends
      rw [if_neg (by simp [hleft]), leftChunkSize, hleft]
      refine ⟨ht.tracks.small, es, ht, ?_⟩
      simp only [Bool.or_eq_true, not_or, Bool.not_eq_true] at hends
      simp only [lineSt, he, hends, hhdr, Bool.false_eq_true, if_false]
      by_cases hz : p.decoder.leftChunkSize = 0
      · simp [hz]
      · simp [hz, Nat.pos_of_ne_zero hz]

theorem finishing_ensures (h : p.Inv s lineMax) (hpc : p.pc = .finishing) :
    p.finishing.Ensures (Inv s lineMax) (Handed s lineMax) := by
  obtain ⟨es, ht, h⟩ := h
  rw [hpc] at h
  have hstep := finishChunkEndStep_ensures anyField ht.tracks h
  unfold finishing
  split
  case h_1 d hd | h_2 d hd =>
    rw [hd] at hstep
    obtain ⟨hends, es', htook⟩ := hstep
    exact ⟨_, by simpa using ht.trans htook, by rw [hpc]; exact hends⟩
  case h_3 => exact trivial
  case h_4 d hd =>
    rw [hd] at hstep
    obtain ⟨⟨hleft, he, hhdr⟩, es', htook⟩ := hstep
    simp only [leftChunkSize, hleft]
    refine ⟨by simp, _, by simpa using ht.trans htook, ?_⟩
    have hends : ¬d.endsChunk = true := by
      intro hends
      rw [leftSize, if_pos hends] at hleft
      simp at hleft
    rw [leftSize, if_neg hends] at hleft
    simp only [Bool.or_eq_true, not_or, Bool.not_eq_true] at hends
    simp [lineSt, he, hends, Option.some.inj hleft, hhdr]

theorem step_ensures (hb : StartsWithBody s.content wire rest body)
    (h : p.Inv s lineMax) : p.step.Ensures (Inv s lineMax) (Handed s lineMax) := by
  unfold step
  cases hpc : p.pc with
  | reading => exact readPreviewData_ensures hb h hpc
  | handover => exact handover_ensures h hpc
  | finishing => exact finishing_ensures h hpc

theorem inv_new (s : Source) (lineMax max : Nat)
    (hcut : stallsInSizeLine max start s.events = false) : (new s lineMax max).Inv s lineMax := by
  refine ⟨[], Took.refl (tracks_new s lineMax),
    Nat.zero_le _, ?_⟩
  split
  · exact hcut
  · exact .inr ⟨rfl, rfl⟩

/-- What is handed over leads from the preview to the end of the body. -/
theorem handed_rest {left : Nat} (h : p.Handed s lineMax (.more left))
    (hb : StartsWithBody s.content wire rest body) :
    ∃ v tail, p.decoder.reader.content = v ++ rest ∧ p.previewBuf ++ tail = body ∧
      feed sizeOf (BodyKind.previewStart (.ofNat left)) v = ⟨.done, tail⟩ := by
  obtain ⟨hsmall, es, ht, hst⟩ := h
  obtain ⟨v, hv, hcont, hsim, hbad, hbody⟩ := ht.place hb
  have hg := ht.tracks.st
  rw [hst] at hg
  -- the strict reading is where the transfer starts
  have hf : (feed sizeOf start (bytesOf es)).st =
      (BodyKind.previewStart (.ofNat left)).st := by
    have htoNat : (UInt64.ofNat left).toNat = left := UInt64.toNat_ofNat_of_lt' hsmall
    unfold BodyKind.previewStart
    by_cases hz : left = 0
    · rw [if_pos (by rw [hz]; rfl)]
      rw [if_pos hz] at hg
      generalize feed sizeOf start (bytesOf es) = f at hsim hbad
      generalize LineFrame.feed sizeOf anyField LineFrame.start (bytesOf es) = g at hsim hg
      cases hsim with
      | sizeLine line x => simp only [LineFrameSt.sizeLine.injEq] at hg; rw [← hg]; rfl
      | sizeLf line x => simp at hg
      | broken => exact absurd rfl hbad
      | _ => simp at hg
    · rw [if_neg (fun h0 => hz (by rw [← htoNat, h0]; rfl)), htoNat]
      rw [if_neg hz] at hg
      generalize feed sizeOf start (bytesOf es) = f at hsim hbad
      generalize LineFrame.feed sizeOf anyField LineFrame.start (bytesOf es) = g at hsim hg
      cases hsim with
      | data n x => simp only [LineFrameSt.data.injEq] at hg; rw [hg]
      | broken => exact absurd rfl hbad
      | _ => simp at hg
  have hstart : (BodyKind.previewStart (.ofNat left)).body = [] := by
    unfold BodyKind.previewStart
    split <;> rfl
  have hframe := hb.frame
  rw [hv, feed_append, show feed sizeOf start (bytesOf es) =
    ⟨(BodyKind.previewStart (.ofNat left)).st, p.previewBuf ++ []⟩ by
      rw [append_nil, ← hf, ← hbody], Frame.feed_shift, Frame.mk.injEq, ← hstart] at hframe
  exact ⟨v, _, hcont.symm, hframe.2, by rw [← hframe.1]⟩

end XferPreview

/-- The preview loses nothing: whatever is not read as a small body is handed over to a transfer,
    and the preview followed by the payload that any completed run of it writes is the body. -/
def PreviewLossless (s : Source) (max : Nat) : Prop :=
  ∀ (wire rest body : Bytes), StartsWithBody s.content wire rest body →
    ∀ (lineMax : Nat) (fin : PreviewEnd) (p : XferPreview),
      XferPreview.future.Completes (.new s lineMax max) (.ok fin) p → fin ≠ .small →
      ∃ left, fin = .more left ∧
        ∀ (ω : Type) [AsyncWrite ω] (w : ω) (config : StreamCopyConfig)
          (t : H1BodyToChunkedTransfer (Tapped ω)),
          (H1BodyToChunkedTransfer.future (Tapped ω)).Completes
            (.newChunkedAfterPreview p.decoder.reader (tap w) (.ofNat left) lineMax config)
            (.ok ()) t →
          ∃ tail, Frame.feed sizeOf Frame.start t.state.writer.log = ⟨.done, tail⟩ ∧
            p.previewBuf ++ tail = body

/-- A stream is previewed without a loss if the preview does not end with a chunk, or the first stall
    behind it is not inside the next size line. -/
theorem previewLossless_of_not_stallsInSizeLine (s : Source) (max : Nat)
    (hcut : stallsInSizeLine max Frame.start s.events = false) : PreviewLossless s max := by
  intro wire rest body hb lineMax fin p hp hsmall
  have hhanded := Future.Completes.ensures (fun hI => hI) (XferPreview.step_ensures hb)
    (XferPreview.inv_new s lineMax max hcut) hp
  match fin, hhanded with
  | .small, _ => exact absurd rfl hsmall
  | .more left, hhanded =>
    refine ⟨left, rfl, ?_⟩
    intro ω _ w config t ht
    obtain ⟨v, tail, hcont, hbody, hv⟩ := XferPreview.handed_rest hhanded hb
    obtain ⟨wire', tail', hcont', hwire', hlog, -⟩ :=
      (H1BodyToChunkedTransfer.delivered_of_completes (.chunkedAfterPreview (.ofNat left)) ht).exact
    obtain ⟨-, rfl⟩ := complete_unique (hcont.symm.trans hcont') hv hwire'
    exact ⟨tail, hlog, hbody⟩

end

/-- A preview of five bytes, a stall right behind it, and the rest of the body. -/
theorem previewLossless_hello :
    stallsInSizeLine 5 Frame.start (Source.events ⟨ascii "5\r\nhello", [.stall,
      .slice 13 (ascii "\n2\r\n!!\r\n0\r\n\r\n")], by decide⟩) = false ∧
    PreviewLossless ⟨ascii "5\r\nhello", [.stall,
      .slice 13 (ascii "\n2\r\n!!\r\n0\r\n\r\n")], by decide⟩ 5 ∧
    ∃ p, XferPreview.future.Completes (.new ⟨ascii "5\r\nhello", [.stall,
      .slice 13 (ascii "\n2\r\n!!\r\n0\r\n\r\n")], by decide⟩ 64 5) (.ok (.more 0)) p :=
  ⟨by decide, previewLossless_of_not_stallsInSizeLine _ 5 (by decide), _,
    Future.drive_completes (n := 8) .start rfl⟩

/-- The stream stalls behind the first digit of the size `10`. The preview is full, the digit is
    lost with the decoder, and the transfer takes the rest of the line for the last chunk. -/
theorem not_previewLossless_split_size : ¬ PreviewLossless ⟨ascii "5\r\nhello\r\n1", [.stall,
    .slice 48 (ascii "\r\n0123456789abcdef\r\n0\r\n\r\n")], by decide⟩ 5 := by
  intro h
  have hbody : StartsWithBody (Source.content ⟨ascii "5\r\nhello\r\n1", [.stall,
      .slice 48 (ascii "\r\n0123456789abcdef\r\n0\r\n\r\n")], by decide⟩)
      (ascii "5\r\nhello\r\n10\r\n0123456789abcdef\r\n0\r\n\r\n") []
      (ascii "hello0123456789abcdef") := ⟨by decide, by decide, by decide⟩
  obtain ⟨left, hleft, hrun⟩ := h _ _ _ hbody 64 (.more 0) _
    (Future.drive_completes (n := 8) .start rfl) (by simp)
  obtain rfl : 0 = left := by simpa using hleft
  obtain ⟨tail, htail, hall⟩ := hrun Sink ⟨[]⟩ ⟨64, 64⟩ _
    (Future.drive_completes (n := 8) .start rfl)
  have hempty : tail = [] := (congrArg body htail).symm.trans (by decide)
  rw [hempty] at hall
  revert hall
  decide

end Vey.Icap
