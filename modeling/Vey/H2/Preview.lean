import Vey.H2.RecvStream
import Vey.IoExt.WriteAllVectored
import Vey.Http.StreamToChunked

/-! `H2PreviewData`: the front of an HTTP/2 body.

        frames   [ ..... ][ .......... ][ ...
        buffer   [ ..... . . . . ]              at most max_size bytes
        left                     [ .... ]       the rest of the frame that filled it

    What was received is the buffer and the left-over; the stream goes on behind them. -/

namespace Vey.H2
open Schemes IoExt Http List

inductive H2PreviewError where
  | readDataFailed (e : H2Error)

structure H2PreviewData where
  maxSize : UInt64
  received : Nat := 0
  buffer : Bytes := []
  left : Option Bytes := none
  endOfData : Bool := false

namespace H2PreviewData

def new (previewSize : UInt64) : H2PreviewData where
  maxSize := previewSize

def previewSize (p : H2PreviewData) : Nat := p.buffer.length

/-- The `match` on `checked_sub(max_size)`: the data, the size that is compared, and whether the
    stream ends here. The answer says whether the preview is full. -/
def accept (p : H2PreviewData) (data : Bytes) (size : Nat) (isEnd : Bool) : H2PreviewData × Bool :=
  if size = p.maxSize.toNat then
    ({ p with buffer := p.buffer ++ data, endOfData := isEnd }, true)
  else if p.maxSize.toNat < size then
    let keep := data.length - (size - p.maxSize.toNat)
    ({ p with buffer := p.buffer ++ data.take keep, left := some (data.drop keep) }, true)
  else ({ p with buffer := p.buffer ++ data }, false)

end H2PreviewData

/-- Where the read of a preview is: in `recv_all`, before the first answer of `recv_initial` with so
    many polls until its timeout, or in the loop behind it. -/
inductive RecvAt where
  | all
  | first (polls : Nat)
  | rest

/-- The read of a preview. -/
structure RecvPreview where
  preview : H2PreviewData
  cltBody : RecvStream
  pc : RecvAt

namespace RecvPreview

abbrev Step := Ctrl RecvPreview (Poll (Except H2PreviewError Unit))

def recvAll (previewSize : UInt64) (cltBody : RecvStream) : RecvPreview :=
  ⟨.new previewSize, cltBody, .all⟩

def recvInitial (previewSize : UInt64) (cltBody : RecvStream) (polls : Nat) : RecvPreview :=
  ⟨.new previewSize, cltBody, .first polls⟩

variable (s : RecvPreview)

/-- The end of the stream. -/
def setEnd (cltBody : RecvStream) : RecvPreview :=
  { s with preview := { s.preview with endOfData := true }, cltBody := cltBody }

/-- No data yet: `recv_all` waits, `recv_initial` waits for its first data until the timeout. -/
def stalled (cltBody : RecvStream) : Step :=
  match s.pc with
  | .all => .ret .pending { s with cltBody := cltBody }
  | .first (n + 1) => .ret .pending { s with cltBody := cltBody, pc := .first n }
  | .first 0 => .ret (.ready (.ok ())) { s with cltBody := cltBody }
  | .rest => .ret (.ready (.ok ())) { s with cltBody := cltBody }

/-- The place behind a frame. -/
def nextAt : RecvAt → RecvAt
  | .all => .all
  | .first _ => .rest
  | .rest => .rest

/-- The size that a frame is compared with: the first one by itself, the others with what came
    before. -/
def sizeAt (pc : RecvAt) (received len : Nat) : Nat :=
  match pc with
  | .first _ => len
  | _ => received + len

def frame (f : DataFrame) (cltBody : RecvStream) : Step :=
  if f.data = [] then .next { s with cltBody := cltBody, pc := nextAt s.pc }
  else
    match f.release with
    | .error e => .ret (.ready (.error (.readDataFailed e))) { s with cltBody := cltBody }
    | .ok _ =>
      let p := { s.preview with received := s.preview.received + f.data.length }
      let r := p.accept f.data (sizeAt s.pc s.preview.received f.data.length) cltBody.isEndStream
      if r.2 then .ret (.ready (.ok ())) ⟨r.1, cltBody, s.pc⟩
      else .next ⟨r.1, cltBody, nextAt s.pc⟩

def poll : Step :=
  match s.cltBody.pollData with
  | (.pending, cltBody) => s.stalled cltBody
  | (.ready none, cltBody) => .ret (.ready (.ok ())) (s.setEnd cltBody)
  | (.ready (some (.error e)), cltBody) =>
    .ret (.ready (.error (.readDataFailed e))) { s with cltBody := cltBody }
  | (.ready (some (.ok f)), cltBody) => s.frame f cltBody

def future : Future RecvPreview (Except H2PreviewError Unit) := ⟨id, poll⟩

end RecvPreview

/-! ### A preview is the front of the body -/

/-- The preview is the front of a body, and the stream goes on behind it. -/
structure H2PreviewData.Fronts (all : Bytes) (trailers : TrailersResult)
    (p : H2PreviewData) (s : RecvStream) : Prop where
  split : p.buffer ++ p.left.getD [] ++ s.body = all
  received : p.received = p.buffer.length + (p.left.getD []).length
  room : p.buffer.length < 2 ^ 64
  left : ∀ l, p.left = some l → l ≠ [] ∧ l.length < 2 ^ 64
  fin : p.endOfData = true → p.left = none ∧ s.arrivals = []
  trailers : s.trailers = trailers

namespace RecvPreview

variable {max : UInt64} {all : Bytes} {trailers : TrailersResult}
  {s : RecvPreview}

/-- A preview that is not full yet. -/
def Fills (max : UInt64) (all : Bytes) (trailers : TrailersResult) (s : RecvPreview) : Prop :=
  s.preview.maxSize = max ∧ s.preview.buffer ++ s.cltBody.body = all ∧
  s.preview.received = s.preview.buffer.length ∧ s.preview.buffer.length ≤ max.toNat ∧
  s.preview.left = none ∧ s.preview.endOfData = false ∧ s.cltBody.trailers = trailers ∧
  ∀ n, s.pc = .first n → s.preview.received = 0

/-- The preview was read; `recv_all` fills it, unless the stream ends first. -/
def Received (max : UInt64) (all : Bytes) (trailers : TrailersResult) (s : RecvPreview) : Prop :=
  s.preview.Fronts all trailers s.cltBody ∧
    (s.pc = .all → s.preview.endOfData = false → s.preview.buffer.length = max.toNat)

theorem Fills.fronts (h : s.Fills max all trailers) : s.preview.Fronts all trailers s.cltBody := by
  obtain ⟨-, hsplit, hrec, hle, hleft, hend, htr, -⟩ := h
  refine ⟨?_, ?_, hle.trans_lt max.toNat_lt, ?_, ?_, htr⟩
  · rw [hleft, Option.getD_none, append_nil, hsplit]
  · rw [hleft, hrec]
    rfl
  · intro l hl
    rw [hleft] at hl
    cases hl
  · intro he
    rw [hend] at he
    cases he

/-- The first frame is compared by itself, but nothing came before it. -/
theorem Fills.sizeAt (h : s.Fills max all trailers) (len : Nat) :
    sizeAt s.pc s.preview.received len = s.preview.buffer.length + len := by
  obtain ⟨-, -, hrec, -, -, -, -, hfirst⟩ := h
  rw [← hrec]
  cases hpc : s.pc with
  | first n => rw [RecvPreview.sizeAt, hfirst n hpc, Nat.zero_add]
  | all => rfl
  | rest => rfl

/-- A frame fills the preview, or leaves room. -/
theorem accept_ensures {p : H2PreviewData} {data : Bytes} {b : RecvStream} (pc pc' : RecvAt)
    (hpc : ∀ n, pc ≠ .first n) (hmax : p.maxSize = max)
    (hsplit : p.buffer ++ (data ++ b.body) = all)
    (hrec : p.received = p.buffer.length + data.length)
    (hle : p.buffer.length ≤ max.toNat) (hleft : p.left = none)
    (hend : p.endOfData = false) (htr : b.trailers = trailers) (hfits : data.length < 2 ^ 64) :
    let r := p.accept data (p.buffer.length + data.length) b.isEndStream
    if r.2 then (⟨r.1, b, pc'⟩ : RecvPreview).Received max all trailers
    else (⟨r.1, b, pc⟩ : RecvPreview).Fills max all trailers := by
  have hlt64 := max.toNat_lt
  rw [H2PreviewData.accept, hmax]
  split
  next heq =>
    refine ⟨⟨?_, ?_, ?_, ?_, ?_, htr⟩, fun _ _ => ?_⟩
    · rw [← hsplit, hleft, Option.getD_none, append_nil, append_assoc]
    · rw [hleft, length_append]
      exact hrec
    · rw [length_append]
      omega
    · intro l hl
      rw [hleft] at hl
      cases hl
    · exact fun hlast => ⟨hleft, RecvStream.arrivals_of_isEndStream hlast⟩
    · rw [length_append, heq]
  next hneq =>
    split
    next hlt =>
      -- the frame is cut where the preview is full
      have hkeep : data.length - (p.buffer.length + data.length - max.toNat) =
          max.toNat - p.buffer.length := by omega
      rw [hkeep]
      refine ⟨⟨?_, ?_, ?_, ?_, ?_, htr⟩, fun _ _ => ?_⟩
      · rw [← hsplit, Option.getD_some, append_assoc p.buffer, take_append_drop,
          append_assoc]
      · rw [Option.getD_some, length_append, length_take, length_drop]
        exact hrec.trans (by omega)
      · rw [length_append, length_take]
        omega
      · intro l hl
        obtain rfl := Option.some.inj hl
        rw [length_drop]
        exact ⟨ne_nil_of_length_pos (by rw [length_drop]; omega), by omega⟩
      · intro he
        rw [hend] at he
        cases he
      · rw [length_append, length_take]
        omega
    next hge =>
      refine ⟨rfl, ?_, ?_, ?_, hleft, hend, htr, fun n hn => absurd hn (hpc n)⟩
      · rw [← hsplit, append_assoc]
      · rw [length_append]
        exact hrec
      · rw [length_append]
        omega

theorem nextAt_ne_first (pc : RecvAt) (n : Nat) : nextAt pc ≠ .first n := by
  cases pc <;> nofun

theorem frame_ensures (h : s.Fills max all trailers) {f : DataFrame} {as : List FrameArrival}
    (hs : s.cltBody.arrivals = .data f :: as) :
    (s.frame f { s.cltBody with arrivals := as }).Ensures (Fills max all trailers)
      fun _ => Received max all trailers := by
  have hsize := h.sizeAt f.data.length
  obtain ⟨hmax, hsplit, hrec, hle, hleft, hend, htr, -⟩ := h
  rw [RecvStream.body_data hs] at hsplit
  rw [frame]
  split
  next hnil =>
    rw [hnil] at hsplit
    exact ⟨hmax, hsplit, hrec, hle, hleft, hend, htr,
      fun n hn => absurd hn (nextAt_ne_first s.pc n)⟩
  next hne =>
    split
    next => exact trivial
    next =>
      have haccept := accept_ensures
        (p := { s.preview with received := s.preview.received + f.data.length })
        (nextAt s.pc) s.pc (nextAt_ne_first s.pc) hmax hsplit (by rw [hrec]) hle hleft hend htr
        f.fits
      rw [hsize]
      dsimp only at haccept ⊢
      split at haccept
      next hfull => rw [if_pos hfull]; exact haccept
      next hroom => rw [if_neg hroom]; exact haccept

theorem stalled_ensures (h : s.Fills max all trailers) {as : List FrameArrival}
    (hs : s.cltBody.arrivals = .stall :: as) :
    (s.stalled { s.cltBody with arrivals := as }).Ensures (Fills max all trailers)
      fun _ => Received max all trailers := by
  have hnext : ∀ pc, (∀ n, pc = .first n → s.preview.received = 0) →
      (⟨s.preview, { s.cltBody with arrivals := as }, pc⟩ : RecvPreview).Fills max all
        trailers := by
    intro pc hpc
    obtain ⟨hmax, hsplit, hrec, hle, hleft, hend, htr, -⟩ := h
    rw [RecvStream.body_stall hs] at hsplit
    exact ⟨hmax, hsplit, hrec, hle, hleft, hend, htr, hpc⟩
  have hfirst := h.2.2.2.2.2.2.2
  rw [stalled]
  split
  next hpc => exact hnext _ hfirst
  next n hpc => exact hnext _ fun _ _ => hfirst _ hpc
  all_goals
    next hpc => exact ⟨(hnext _ hfirst).fronts, fun hall => absurd (hpc.symm.trans hall) nofun⟩

theorem poll_ensures (h : s.Fills max all trailers) :
    s.poll.Ensures (Fills max all trailers) fun _ => Received max all trailers := by
  rw [poll]
  rcases s.cltBody.pollData_cases with ⟨hs, hp⟩ | ⟨as, hs, hp⟩ | ⟨e, as, hs, hp⟩ | ⟨f, as, hs, hp⟩
  · rw [hp]
    have hf := h.fronts
    exact ⟨⟨hf.split, hf.received, hf.room, hf.left, fun _ => ⟨h.2.2.2.2.1, hs⟩, hf.trailers⟩, nofun⟩
  · rw [hp]
    exact stalled_ensures h hs
  · rw [hp]
    exact trivial
  · rw [hp]
    exact frame_ensures h hs

/-- Every poll takes something off the stream. -/
theorem poll_lowers (h : s.cltBody.Sound) :
    future.Lowers (fun t => ⟨t.cltBody.arrivals.length, 0, 0⟩) s s.poll := by
  rw [poll]
  rcases s.cltBody.pollData_cases with ⟨hs, hp⟩ | ⟨as, hs, hp⟩ | ⟨e, as, hs, hp⟩ | ⟨f, as, hs, hp⟩
  · rw [hp]
    exact trivial
  · rw [hp]
    have hless : as.length < s.cltBody.arrivals.length := by simp [hs]
    dsimp only
    rw [stalled]
    split
    next => exact .inl hless
    next => exact .inl hless
    next => exact trivial
    next => exact trivial
  · exact absurd (hs ▸ mem_cons_self) (h.1 e)
  · rw [hp]
    have hless : as.length < s.cltBody.arrivals.length := by simp [hs]
    have hrel := h.2.1 f (hs ▸ mem_cons_self)
    dsimp only
    rw [frame, hrel]
    dsimp only
    split_ifs
    · exact .inl hless
    · exact trivial
    · exact .inl hless

/-- What is left of the stream is as sound as it was. -/
theorem poll_sound (h : s.cltBody.Sound) : s.poll.state.cltBody.Sound := by
  rw [poll]
  rcases s.cltBody.pollData_cases with ⟨hs, hp⟩ | ⟨as, hs, hp⟩ | ⟨e, as, hs, hp⟩ | ⟨f, as, hs, hp⟩
  · rw [hp]
    exact h
  · rw [hp]
    dsimp only
    rw [stalled]
    split <;> exact h.tail hs
  · rw [hp]
    exact h.tail hs
  · rw [hp]
    dsimp only
    rw [frame]
    split
    · exact h.tail hs
    · split
      · exact h.tail hs
      · dsimp only
        split <;> exact h.tail hs

theorem fills_recvAll (previewSize : UInt64) (b : RecvStream) :
    (recvAll previewSize b).Fills previewSize b.body b.trailers :=
  ⟨rfl, rfl, rfl, Nat.zero_le _, rfl, rfl, rfl, nofun⟩

theorem fills_recvInitial (previewSize : UInt64) (b : RecvStream) (polls : Nat) :
    (recvInitial previewSize b polls).Fills previewSize b.body b.trailers :=
  ⟨rfl, rfl, rfl, Nat.zero_le _, rfl, rfl, rfl, fun _ _ => rfl⟩

/-- The place is where it was: in `recv_all` or in `recv_initial`. -/
theorem poll_recvAll (h : s.pc = .all) : s.poll.state.pc = .all := by
  rw [poll]
  split
  · rw [stalled, h]
    rfl
  · exact h
  · exact h
  · rw [frame, h]
    split
    · rfl
    · split
      · rfl
      · dsimp only
        split <;> rfl

/-- The read of a preview gets ready. -/
theorem gives_received (h : s.Fills max all trailers) (hsound : s.cltBody.Sound) :
    future.Gives s fun _ t => t.Received max all trailers ∧ t.cltBody.Sound ∧
      (s.pc = .all → t.pc = .all) := by
  exact Future.gives_of_lowers
    (I := fun t => t.Fills max all trailers ∧ t.cltBody.Sound ∧ (s.pc = .all → t.pc = .all)) id
    (fun {_} ht => (poll_ensures ht.1).and_state
      ⟨poll_sound ht.2.1, fun hall => poll_recvAll (ht.2.2 hall)⟩) (fun ht => poll_lowers ht.2.1)
    ⟨h, hsound, id⟩

end RecvPreview

/-! ### Writing a preview -/

namespace H2PreviewData

variable {ω : Type} (p : H2PreviewData)

/-- `icap_write_preview_data` -/
def icapWritePreviewData (writer : ω) : WriteAllVectored ω where
  writer := writer
  bufs := [hexFmt p.buffer.length ++ [cr, lf], p.buffer, ascii "\r\n0\r\n\r\n"]

/-- `write_as_chunk`: nothing is written for an empty buffer. -/
def writeAsChunk (writer : ω) : WriteAllVectored ω where
  writer := writer
  bufs := if p.buffer = [] then []
    else [hexFmt p.buffer.length ++ [cr, lf], p.buffer, [cr, lf]]

/-- `icap_write_all_as_chunked` -/
def icapWriteAllAsChunked (writer : ω) : WriteAllVectored ω where
  writer := writer
  bufs :=
    if p.received = 0 then [ascii "0\r\n"]
    else match p.left with
      | some left => [hexFmt p.received ++ [cr, lf], p.buffer, left, ascii "\r\n0\r\n"]
      | none => [hexFmt p.received ++ [cr, lf], p.buffer, ascii "\r\n0\r\n"]

end H2PreviewData

end Vey.H2
