import Vey.Http.ChunkedDecoder

/-! `ChunkedDataDecodeReader` follows the lenient reading of chunked framing.

    Whatever a poll takes off the stream moves the decoder as it moves the automaton, and the
    payload among it is what the poll hands to its caller. -/

namespace Vey.Http
open Schemes List LineFrame

namespace ChunkedDataDecodeReader

variable (d : ChunkedDataDecodeReader)

/-- The place in the framing that the decoder is at. -/
def lineSt : LineFrameSt :=
  if d.pollChunkEnd then if d.thisChunkSize = 0 then .trailer [] else .sizeLine []
  else if d.pollChunkEndN then .dataLf
  else if d.pollChunkEndR then .dataEnd
  else if d.leftChunkSize > 0 then .data d.leftChunkSize
  else .sizeLine d.chunkHeader

/-- The payload of a chunk is read, the line end behind it is not. -/
abbrev endsChunk : Bool := d.pollChunkEndR || d.pollChunkEndN

/-- The fields that every decoder keeps in step, whatever its polls answered. -/
structure Sound : Prop where
  ends : d.endsChunk = true →
    d.thisChunkSize ≠ 0 ∧ d.chunkHeader = [] ∧ d.leftChunkSize = 0
  closing : d.pollChunkEnd = true → d.thisChunkSize ≠ 0 → d.endsChunk = true
  live : 0 < d.leftChunkSize → d.thisChunkSize ≠ 0 ∧ d.chunkHeader = []
  small : d.leftChunkSize < 2 ^ 64

/-- The decoder is where the automaton is, and its other fields are what that place needs. -/
structure Tracks (g : LineFrame) : Prop extends d.Sound where
  st : d.lineSt = g.st

/-- Inside the line end behind the payload of a chunk. -/
def InChunkEnd : Prop :=
  d.Sound ∧ d.endsChunk = true

/-! ### What the flags say about each other -/

variable {k : ChunkedDataDecodeReader → Bytes → Except IoError Unit × ChunkedDataDecodeReader}

section

variable {d : ChunkedDataDecodeReader}

theorem sound_new (s : Source) (max : Nat) : (new s max).Sound :=
  ⟨nofun, nofun, nofun, by simp [new]⟩

theorem sound_resume (s : Source) (max : Nat) (n : UInt64) : (resume s max n).Sound :=
  ⟨nofun, nofun, fun h => ⟨Nat.ne_of_gt h, rfl⟩, n.toNat_lt⟩

theorem Sound.withReader (h : d.Sound) (s : Source) :
    ({ d with reader := s } : ChunkedDataDecodeReader).Sound := { h with }

theorem Sound.clearChunkEnd (h : d.Sound) : d.clearChunkEnd.Sound :=
  ⟨nofun, nofun, h.live, h.small⟩

/-- Every decoder is at a place of the framing. -/
theorem Sound.tracks (h : d.Sound) : d.Tracks ⟨d.lineSt, []⟩ := ⟨h, rfl⟩

theorem InChunkEnd.withReader (h : d.InChunkEnd) (s : Source) :
    ({ d with reader := s } : ChunkedDataDecodeReader).InChunkEnd := ⟨h.1.withReader s, h.2⟩

/-- The chunk end is behind the decoder. -/
theorem InChunkEnd.pass (h : d.InChunkEnd) :
    ({ d with pollChunkEnd := true } : ChunkedDataDecodeReader).InChunkEnd :=
  ⟨{ h.1 with closing := fun _ _ => h.2 }, h.2⟩

theorem InChunkEnd.chunkEndN (h : d.InChunkEnd) (buf : Bytes) : (d.chunkEndN buf).2.InChunkEnd := by
  unfold ChunkedDataDecodeReader.chunkEndN
  split
  · exact (h.withReader _).pass
  · exact h

theorem InChunkEnd.chunkEndR (h : d.InChunkEnd) (hover : d.pollChunkEnd = false) (buf : Bytes) :
    (d.chunkEndR buf).2.InChunkEnd := by
  unfold ChunkedDataDecodeReader.chunkEndR
  repeat' split
  · exact ⟨⟨fun _ => h.1.ends h.2, fun hc => absurd (hover.symm.trans hc) nofun, h.1.live, h.1.small⟩,
      Bool.or_true _⟩
  · exact (h.withReader _).pass
  · exact h
  · exact (h.withReader _).pass
  · exact h

theorem withBuf_inv {P : ChunkedDataDecodeReader → Prop} (closed : String)
    (hkeep : ∀ s, P { d with reader := s }) (hk : ∀ s buf, P (k { d with reader := s } buf).2) :
    P (d.withBuf closed k).2 := by
  unfold withBuf
  split
  · exact hkeep _
  · exact hkeep _
  · split
    · exact hkeep _
    · exact hk _ _

/-- The branch that reads a chunk end. -/
theorem InChunkEnd.step (h : d.InChunkEnd) (hover : d.pollChunkEnd = false) (s : Source)
    (buf : Bytes) : ((if d.pollChunkEndN then ChunkedDataDecodeReader.chunkEndN
      else ChunkedDataDecodeReader.chunkEndR) { d with reader := s } buf).2.InChunkEnd := by
  split
  · exact (h.withReader s).chunkEndN buf
  · exact (h.withReader s).chunkEndR hover buf

/-- One round of `finish_pending_chunk_end`. -/
theorem finishChunkEndStep_sound (h : d.Sound) : (finishChunkEndStep d).state.Sound := by
  unfold finishChunkEndStep
  split
  case isTrue =>
    split
    · exact h.clearChunkEnd
    · exact h
  case isFalse hover =>
    split
    case isTrue hend =>
      have hin : d.InChunkEnd := ⟨h, by rwa [endsChunk, Bool.or_comm]⟩
      have hbuf := withBuf_inv closedInLineEnd hin.withReader
        (hin.step (by simpa using hover))
      split
      all_goals
        next hw =>
          rw [hw] at hbuf
          exact hbuf.1
    case isFalse => exact h

section

variable [AtoiRadix16]

theorem startChunk_sound (hends : d.endsChunk = false)
    (hover : d.pollChunkEnd = false) (hl : d.leftChunkSize = 0) : d.startChunk.2.Sound := by
  have hidle : ∀ {P : Prop}, d.endsChunk = true → P :=
    fun h => absurd (hends.symm.trans h) nofun
  have hopen : ∀ {P : Prop}, d.pollChunkEnd = true → P := fun h => absurd (hover.symm.trans h) nofun
  unfold startChunk
  split
  · refine ⟨hidle, hopen, fun h => absurd hl (Nat.ne_of_gt h), ?_⟩
    rw [hl]
    decide
  next line hparse =>
    split
    case isTrue hz =>
      exact ⟨hidle, fun _ hne => absurd hz hne, fun h => absurd hz (Nat.ne_of_gt h), parse_lt hparse⟩
    case isFalse hz =>
      exact ⟨hidle, hopen, fun _ => ⟨hz, rfl⟩, parse_lt hparse⟩

theorem chunkHeaderIn_sound (h : d.Sound) (hends : d.endsChunk = false)
    (hover : d.pollChunkEnd = false) (hl : d.leftChunkSize = 0) (buf : Bytes) :
    (d.chunkHeaderIn buf).2.Sound := by
  unfold chunkHeaderIn
  split
  · dsimp only
    split
    · exact h
    · exact startChunk_sound hends hover hl
  · dsimp only
    split
    · exact h
    · exact ⟨fun hc => absurd (hends.symm.trans hc) nofun, h.closing,
        fun hpos => absurd hl (Nat.ne_of_gt hpos), h.small⟩

end

end

variable {d : ChunkedDataDecodeReader} {g : LineFrame}

theorem Tracks.withReader (h : d.Tracks g)
    (s : Source) : ({ d with reader := s } : ChunkedDataDecodeReader).Tracks g := { h with }

theorem tracks_new (s : Source) (maxSize : Nat) : (new s maxSize).Tracks start :=
  ⟨sound_new s maxSize, rfl⟩

/-- The decoder stops before the trailer of a body. -/
theorem Tracks.live_st (h : d.Tracks g) : g.st ≠ .bad ∧ g.st ≠ .done := by
  rw [← h.st, lineSt]
  repeat' split
  all_goals simp

theorem Tracks.clearChunkEnd (h : d.Tracks g)
    (he : d.pollChunkEnd = true) (hz : d.thisChunkSize ≠ 0) : d.clearChunkEnd.Tracks g := by
  obtain ⟨-, hhdr, hleft⟩ := h.ends (h.closing he hz)
  refine ⟨h.toSound.clearChunkEnd, ?_⟩
  rw [← h.st]
  simp [lineSt, ChunkedDataDecodeReader.clearChunkEnd, he, hz, hleft, hhdr]

variable {used : Bytes}

section

variable [AtoiRadix16] {field : Bytes → Bool} {d' : ChunkedDataDecodeReader}

/-- The decoder took the events `es` with the payload `x` off the stream. -/
structure Took (field : Bytes → Bool) (d : ChunkedDataDecodeReader) (g : LineFrame)
    (es : List Event) (x : Bytes) (d' : ChunkedDataDecodeReader) : Prop where
  script : es ++ d'.reader.events = d.reader.events
  tracks : d'.Tracks (LineFrame.feed sizeOf field g (bytesOf es))
  body : (LineFrame.feed sizeOf field g (bytesOf es)).body = g.body ++ x

theorem Took.stream {es : List Event} {x : Bytes} (h : Took field d g es x d') :
    bytesOf es ++ d'.reader.content = d.reader.content := by
  rw [← Source.bytesOf_events, ← Source.bytesOf_events, ← bytesOf_append, h.script]

theorem Took.refl (h : d.Tracks g) : Took field d g [] [] d := ⟨rfl, h, by simp⟩

theorem Took.trans {u v : List Event} {x y : Bytes} {e : ChunkedDataDecodeReader}
    (h : Took field d g u x d') (h' : Took field d' (feed sizeOf field g (bytesOf u)) v y e) :
    Took field d g (u ++ v) (x ++ y) e where
  script := by rw [append_assoc, h'.script, h.script]
  tracks := by rw [bytesOf_append, feed_append]; exact h'.tracks
  body := by rw [bytesOf_append, feed_append, h'.body, h.body, append_assoc]

/-- The decoder met a stall. -/
def Stalls (d d' : ChunkedDataDecodeReader) : Prop :=
  ∃ s, d' = { d with reader := s } ∧ .stall :: s.events = d.reader.events

theorem Took.stall (h : d.Tracks g) (hs : d.Stalls d') : Took field d g [.stall] [] d' := by
  obtain ⟨s, rfl, hs⟩ := hs
  exact ⟨hs, h.withReader s, by simp⟩

/-- The decoder took the bytes `used` and met no stall. -/
theorem Took.ofBytes {used x : Bytes} (hs : used.map .byte ++ d'.reader.events = d.reader.events)
    (ht : d'.Tracks (feed sizeOf field g used))
    (hb : (feed sizeOf field g used).body = g.body ++ x) : Took field d g (used.map .byte) x d' :=
  ⟨hs, by rw [bytesOf_map_byte]; exact ht, by rw [bytesOf_map_byte]; exact hb⟩

variable {s : Source}

/-- The bytes `used` end the chunk. -/
theorem Took.chunkEnd (h : d.Tracks g) (hend : d.endsChunk = true)
    (hs : used.map .byte ++ s.events = d.reader.events)
    (hf : feed sizeOf field g used = ⟨.sizeLine [], g.body⟩) :
    Took field d g (used.map .byte) [] { d with reader := s, pollChunkEnd := true } := by
  refine Took.ofBytes hs ?_ (by rw [hf, append_nil])
  rw [hf]
  exact ⟨{ h with closing := fun _ _ => hend }, by simp [lineSt, (h.ends hend).1]⟩

section

variable (he : d.pollChunkEnd = false)

include he

theorem chunkEndN_took {buf : Bytes} (h : d.Tracks g) (hn : d.pollChunkEndN = true) (hne : buf ≠ [])
    (hbuf : ∀ n ≤ buf.length, (buf.take n).map .byte ++ (s.consume n).events = d.reader.events)
    (hk : chunkEndN { d with reader := s } buf = (.ok (), d')) :
    ∃ used, used ≠ [] ∧ Took field d g (used.map .byte) [] d' := by
  obtain ⟨b, bs, rfl⟩ := exists_cons_of_ne_nil hne
  obtain ⟨st, body⟩ := g
  obtain rfl : st = .dataLf := h.st.symm.trans (by simp [lineSt, he, hn])
  unfold chunkEndN at hk
  split at hk
  case isTrue hb =>
    obtain rfl : b = lf := hb
    cases hk
    exact ⟨[lf], by simp, .chunkEnd h (by simp [hn]) (hbuf 1 (by simp)) (by simp [step])⟩
  case isFalse => cases hk

theorem chunkEndR_took {buf : Bytes} (h : d.Tracks g) (hn : d.pollChunkEndN = false)
    (hr : d.pollChunkEndR = true) (hne : buf ≠ [])
    (hbuf : ∀ n ≤ buf.length, (buf.take n).map .byte ++ (s.consume n).events = d.reader.events)
    (hk : chunkEndR { d with reader := s } buf = (.ok (), d')) :
    ∃ used, used ≠ [] ∧ Took field d g (used.map .byte) [] d' := by
  obtain ⟨b, bs, rfl⟩ := exists_cons_of_ne_nil hne
  obtain ⟨st, body⟩ := g
  obtain rfl : st = .dataEnd := h.st.symm.trans (by simp [lineSt, he, hn, hr])
  have hend : d.endsChunk = true := by simp [hr]
  unfold chunkEndR at hk
  split at hk
  case isTrue hb =>
    obtain rfl : b = cr := hb
    split at hk
    case isTrue hlen =>
      cases hk
      refine ⟨[cr], by simp, Took.ofBytes (hbuf 1 (by simp)) ?_ (by simp [step])⟩
      exact ⟨⟨fun _ => h.ends hend, fun _ _ => by simp, h.live, h.small⟩,
        by simp [step, lineSt, consume, he]⟩
    case isFalse hlen =>
      split at hk
      case isTrue hlf =>
        obtain ⟨c, cs, rfl⟩ := exists_cons_of_ne_nil
          (show bs ≠ [] from fun h0 => hlen (by simp [h0]))
        obtain rfl : c = lf := hlf
        cases hk
        exact ⟨[cr, lf], by simp, .chunkEnd h hend (hbuf 2 (by simp)) (by simp [step])⟩
      case isFalse => cases hk
  case isFalse hb =>
    split at hk
    case isTrue hlf =>
      obtain rfl : b = lf := hlf
      cases hk
      exact ⟨[lf], by simp, .chunkEnd h hend (hbuf 1 (by simp))
        (by simp [step, show lf ≠ cr by decide])⟩
    case isFalse => cases hk

/-- What a read of payload owes. -/
def PayloadSpec (field : Bytes → Bool) (d : ChunkedDataDecodeReader) (g : LineFrame) (room : Nat) :
    IoPoll Bytes × ChunkedDataDecodeReader → Prop
  | (.pending, d') => d.Stalls d'
  | (.ready (.ok x), d') => Took field d g (x.map .byte) x d' ∧ x ≠ [] ∧ x.length ≤ room
  | (.ready (.error _), d') => d'.Sound

theorem pollPayload_spec (h : d.Tracks g) (hn : d.pollChunkEndN = false)
    (hr : d.pollChunkEndR = false) (hl : 0 < d.leftChunkSize) (room : Nat) :
    PayloadSpec field d g room (d.pollPayload room) := by
  obtain ⟨hthis, hhdr⟩ := h.live hl
  have hsmall := h.small
  obtain ⟨st, body⟩ := g
  obtain rfl : st = .data d.leftChunkSize := h.st.symm.trans (by simp [lineSt, he, hn, hr, hl])
  unfold pollPayload
  split
  case h_1 s hp => exact ⟨s, rfl, Source.pollRead_events.2 hp⟩
  case h_2 s hp => exact h.toSound.withReader s
  case h_3 y s hp =>
    obtain ⟨-, hlen, -⟩ := Source.pollRead_ok hp
    split
    case isTrue => exact h.toSound.withReader s
    case isFalse hne =>
      have hf : feed sizeOf field ⟨.data d.leftChunkSize, body⟩ y =
          ⟨dataSt (d.leftChunkSize - y.length), body ++ y⟩ :=
        feed_data (by omega) hl
      refine ⟨Took.ofBytes (Source.pollRead_events.1 hp) ?_ (by rw [hf]),
        fun h0 => hne (by simp [h0]), by omega⟩
      rw [hf]
      refine ⟨⟨fun hend => ⟨hthis, hhdr, ?_⟩, by simp [he], fun _ => ⟨hthis, hhdr⟩,
        by dsimp only; omega⟩, ?_⟩
      · by_contra hz
        simp [hz, hr, hn] at hend
      · by_cases hz : d.leftChunkSize - y.length = 0
        · simp [lineSt, he, hn, dataSt, hz]
        · simp [lineSt, he, hn, hr, dataSt, hz, Nat.pos_of_ne_zero hz]

/-- The size line is complete. -/
theorem startChunk_tracks {line : Bytes} (body : Bytes)
    (hends : d.endsChunk = false) (hl : d.leftChunkSize = 0)
    (hk : startChunk { d with reader := s, chunkHeader := line } = (.ok (), d')) :
    d'.reader = s ∧ d'.Tracks ⟨afterSize (sizeOf line), body⟩ := by
  have hsound : d'.Sound := by
    have := startChunk_sound (d := { d with reader := s, chunkHeader := line }) hends he hl
    rwa [hk] at this
  simp only [Bool.or_eq_false_iff] at hends
  unfold startChunk at hk
  split at hk
  case h_1 => cases hk
  case h_2 c hp =>
    have hsize : sizeOf line = some c.chunkSize := by
      rw [sizeOf, show HttpChunkedLine.parse line = .ok c from hp]; rfl
    rw [hsize]
    split at hk
    case isTrue hz =>
      cases hk
      exact ⟨rfl, hsound, by simp [lineSt, hz, afterSize]⟩
    case isFalse hz =>
      cases hk
      obtain ⟨n, hn⟩ := Nat.exists_eq_succ_of_ne_zero hz
      exact ⟨rfl, hsound, by simp [lineSt, he, hends, hn, afterSize]⟩

theorem chunkHeaderIn_took {buf : Bytes} (h : d.Tracks g)
    (hends : d.endsChunk = false) (hl : d.leftChunkSize = 0)
    (hne : buf ≠ [])
    (hbuf : ∀ n ≤ buf.length, (buf.take n).map .byte ++ (s.consume n).events = d.reader.events)
    (hk : chunkHeaderIn { d with reader := s } buf = (.ok (), d')) :
    ∃ used, used ≠ [] ∧ Took field d g (used.map .byte) [] d' := by
  obtain ⟨st, body⟩ := g
  have hends' := hends
  simp only [Bool.or_eq_false_iff] at hends'
  obtain rfl : st = .sizeLine d.chunkHeader := h.st.symm.trans (by simp [lineSt, he, hends', hl])
  unfold chunkHeaderIn at hk
  split at hk
  case h_1 p hm =>
    obtain ⟨hno, -⟩ := memchr_some hm
    have hcut := memchr_take hm
    dsimp only at hk
    split at hk
    case isTrue => cases hk
    case isFalse =>
      obtain ⟨hs, htr⟩ := startChunk_tracks he body hends hl hk
      have hf : feed sizeOf field ⟨.sizeLine d.chunkHeader, body⟩ (buf.take (p + 1)) =
          ⟨afterSize (sizeOf (d.chunkHeader ++ buf.take (p + 1))), body⟩ := by
        rw [hcut, feed_append, feed_sizeLine hno]
        simp [step]
      refine ⟨buf.take (p + 1), by simp [hne],
        Took.ofBytes ?_ (by rw [hf]; exact htr) (by rw [hf]; simp)⟩
      rw [hs]; exact hbuf (p + 1) (memchr_lt hm)
  case h_2 hm =>
    dsimp only at hk
    split at hk
    case isTrue => cases hk
    case isFalse =>
      cases hk
      have hf : feed sizeOf field ⟨.sizeLine d.chunkHeader, body⟩ buf = _ :=
        feed_sizeLine (memchr_none hm)
      have hall := hbuf buf.length (Nat.le_refl _)
      rw [take_length] at hall
      refine ⟨buf, hne, Took.ofBytes hall ?_ (by rw [hf]; simp)⟩
      rw [hf]
      exact ⟨⟨by simp [consume, hends'], by simp [consume, he], by simp [consume, hl],
        by simp [consume, hl]⟩, by simp [lineSt, consume, he, hends', hl]⟩

end

/-- What framing that is read through `withBuf` owes. -/
def FramingSpec (field : Bytes → Bool) (d : ChunkedDataDecodeReader) (g : LineFrame) :
    IoPoll Unit × ChunkedDataDecodeReader → Prop
  | (.pending, d') => d.Stalls d'
  | (.ready (.ok _), d') => ∃ used : Bytes, used ≠ [] ∧ Took field d g (used.map .byte) [] d'
  | (.ready (.error _), d') => d'.Sound

theorem withBuf_spec {closed : String}
    (h : d.Tracks g) (hsound : ∀ s buf, (k { d with reader := s } buf).2.Sound)
    (hk : ∀ s buf d', buf ≠ [] →
      (∀ n ≤ buf.length, (buf.take n).map .byte ++ (s.consume n).events = d.reader.events) →
      k { d with reader := s } buf = (.ok (), d') →
      ∃ used, used ≠ [] ∧ Took field d g (used.map .byte) [] d') :
    FramingSpec field d g (d.withBuf closed k) := by
  unfold withBuf
  split
  case h_1 s hf => exact ⟨s, rfl, d.reader.pollFillBuf_events.2 hf⟩
  case h_2 s hf => exact h.toSound.withReader s
  case h_3 buf s hf =>
    have hbuf := (Source.pollFillBuf_ok hf).1
    have hres := hsound s buf
    split
    case isTrue => exact h.toSound.withReader s
    case isFalse hne =>
      cases hkd : k { d with reader := s } buf with
      | mk res d' =>
        rw [hkd] at hres
        cases res with
        | error e => exact hres
        | ok u =>
          refine hk s buf d' (fun h0 => hne (by simp [h0])) (fun n _ => ?_) hkd
          rw [← hbuf, Source.consume_events, d.reader.pollFillBuf_events.1 hf]

end

/-! ### A whole poll -/

section

variable [AtoiRadix16] {field : Bytes → Bool} {cap : Nat}

/-- What a poll of `d` has done so far, without a stall. -/
def Decoding.From (field : Bytes → Bool) (d : ChunkedDataDecodeReader) (g : LineFrame) (cap : Nat)
    (s : Decoding) : Prop :=
  s.filled.length ≤ cap ∧ ∃ used : Bytes, Took field d g (used.map .byte) s.filled s.decoder

/-- A poll of `d` that has come to a stall. -/
def Decoding.StalledFrom (field : Bytes → Bool) (d : ChunkedDataDecodeReader) (g : LineFrame)
    (cap : Nat) (s : Decoding) : Prop :=
  s.filled.length ≤ cap ∧
    ∃ used : Bytes, Took field d g (used.map .byte ++ [.stall]) s.filled s.decoder

/-- What one round owes: progress, a stall outside a chunk end that is over, or a good reason to
    return. -/
def RoundSpec (field : Bytes → Bool) (d : ChunkedDataDecodeReader) (g : LineFrame) (cap : Nat)
    (s : Decoding) (c : Ctrl Decoding (IoPoll Unit)) : Prop :=
  match c with
  | .next s' => s'.From field d g cap ∧ s'.decoder.budget < s.decoder.budget
  | .ret .pending s' => s'.StalledFrom field d g cap ∧ s'.decoder.pollChunkEnd = false
  | .ret (.ready (.ok _)) s' => s'.From field d g cap ∧ (s'.decoder.finished = true ∨
      s'.decoder.pollChunkEnd = false ∧ 0 < s'.decoder.leftChunkSize ∧ cap ≤ s'.filled.length)
  | .ret (.ready (.error _)) s' => s'.decoder.Sound

variable {d' : ChunkedDataDecodeReader}

theorem Took.budget_lt {u x : Bytes}
    (h : Took field d g (u.map .byte) x d') (hu : u ≠ []) (he : d.pollChunkEnd = false) :
    d'.budget < d.budget := by
  have hlen := congrArg length h.stream
  have hpos := length_pos_iff.mpr hu
  simp only [bytesOf_map_byte, length_append] at hlen
  unfold budget
  rw [he]
  split <;> simp <;> omega

/-- One more piece without a stall. -/
theorem Took.more {d₁ d₂ : ChunkedDataDecodeReader} {u v x y : Bytes}
    (h : Took field d g (u.map .byte) x d₁)
    (h' : Took field d₁ (feed sizeOf field g u) (v.map .byte) y d₂) :
    Took field d g ((u ++ v).map .byte) (x ++ y) d₂ := by
  rw [map_append]
  exact h.trans (by rw [bytesOf_map_byte]; exact h')

variable {s : Decoding}

/-- A round that meets a stall. -/
theorem Decoding.From.stall
    (hlen : s.filled.length ≤ cap) (hu : Took field d g (used.map .byte) s.filled s.decoder)
    (he : s.decoder.pollChunkEnd = false) (h : s.decoder.Stalls d') :
    Decoding.StalledFrom field d g cap ⟨d', s.filled⟩ ∧ d'.pollChunkEnd = false := by
  refine ⟨⟨hlen, used, by simpa using hu.trans (Took.stall hu.tracks h)⟩, ?_⟩
  obtain ⟨src, rfl, -⟩ := h
  exact he

theorem framing_spec {a : IoPoll Unit × ChunkedDataDecodeReader}
    (hlen : s.filled.length ≤ cap) (hu : Took field d g (used.map .byte) s.filled s.decoder)
    (he : s.decoder.pollChunkEnd = false)
    (h : FramingSpec field s.decoder (feed sizeOf field g used) a) :
    RoundSpec field d g cap s (Decoding.framing s.filled a) := by
  rcases a with ⟨_ | ⟨e | u⟩, d'⟩
  · exact Decoding.From.stall hlen hu he h
  · exact h
  · obtain ⟨u, hune, htook⟩ := h
    exact ⟨⟨hlen, used ++ u, by simpa using hu.more htook⟩, htook.budget_lt hune he⟩

theorem decodeStep_spec (h : s.From field d g cap) :
    RoundSpec field d g cap s (decodeStep cap s) := by
  obtain ⟨hlen, used, hu⟩ := h
  have ht := hu.tracks
  rw [bytesOf_map_byte] at ht
  unfold decodeStep
  dsimp only
  split
  case isTrue he =>
    split
    case isTrue hz => exact ⟨⟨hlen, used, hu⟩, .inl (by simp [finished, he, hz])⟩
    case isFalse hz =>
      exact ⟨⟨hlen, used, hu.script, hu.tracks.clearChunkEnd he hz, hu.body⟩,
        by simp [budget, clearChunkEnd, he]⟩
  case isFalse he =>
    rw [Bool.not_eq_true] at he
    split
    case isTrue hn =>
      have hin : s.decoder.InChunkEnd := ⟨ht.toSound, by simp [hn]⟩
      exact framing_spec hlen hu he (withBuf_spec ht
        (fun src buf => ((hin.withReader src).chunkEndN buf).1)
        fun src buf d' => chunkEndN_took he ht hn)
    case isFalse hn =>
      rw [Bool.not_eq_true] at hn
      split
      case isTrue hr =>
        have hin : s.decoder.InChunkEnd := ⟨ht.toSound, by simp [hr]⟩
        exact framing_spec hlen hu he (withBuf_spec ht
          (fun src buf => ((hin.withReader src).chunkEndR he buf).1)
          fun src buf d' => chunkEndR_took he ht hn hr)
      case isFalse hr =>
        rw [Bool.not_eq_true] at hr
        split
        case isTrue hl =>
          split
          case isTrue hfull =>
            exact ⟨⟨hlen, used, hu⟩, .inr ⟨he, hl, by omega⟩⟩
          case isFalse hroom =>
            have hpay : PayloadSpec field s.decoder _ _ _ :=
              pollPayload_spec he ht hn hr hl (cap - s.filled.length)
            generalize s.decoder.pollPayload (cap - s.filled.length) = a at hpay ⊢
            rcases a with ⟨_ | ⟨e | x⟩, d'⟩
            · exact Decoding.From.stall hlen hu he hpay
            · exact hpay
            · obtain ⟨htook, hne, hx⟩ := hpay
              exact ⟨⟨by simp; omega, used ++ x, hu.more htook⟩, htook.budget_lt hne he⟩
        case isFalse hl =>
          have hz : s.decoder.leftChunkSize = 0 := by omega
          have hends : s.decoder.endsChunk = false := by simp [hr, hn]
          exact framing_spec hlen hu he (withBuf_spec ht
            (fun src => chunkHeaderIn_sound (ht.toSound.withReader src) hends he hz)
            fun src buf d' => chunkHeaderIn_took he ht hends hz)

variable (field)

/-- A poll is over within its budget, by a round that meets its specification. -/
theorem pollDecode_ret (h : d.Tracks g) (cap : Nat) :
    ∃ u, RoundSpec field d g cap u (.ret (d.pollDecode cap).1 (d.pollDecode cap).2) := by
  have h0 : (⟨d, []⟩ : Decoding).From field d g cap := ⟨by simp, [], Took.refl h⟩
  have hstep : ∀ s s', s.From field d g cap → decodeStep cap s = .next s' →
      s'.From field d g cap ∧ s'.decoder.budget < s.decoder.budget := by
    intro s s' hs he
    have := decodeStep_spec hs
    rwa [he] at this
  have hsome := iter_isSome (Decoding.From field d g cap) (fun s => s.decoder.budget) hstep h0
    (Nat.lt_succ_self d.budget)
  obtain ⟨⟨r, t⟩, hrt⟩ := Option.isSome_iff_exists.mp hsome
  obtain ⟨u, hu, hb⟩ := iter_inv _ (fun s s' hs he => (hstep s s' hs he).1) h0 hrt
  refine ⟨u, ?_⟩
  have hspec := decodeStep_spec hu
  rw [hb] at hspec
  unfold pollDecode
  rw [hrt]
  exact hspec

/-- The stall at the end of a poll, if there is one. -/
def stallIf (stalled : Bool) : List Event := if stalled then [.stall] else []

/-- What one `poll_read` of the decoder owes. A poll that meets a stall behind some payload hands
    the payload over; one that meets none stops at the end of the body or before payload. -/
def ReadSpec (d : ChunkedDataDecodeReader) (g : LineFrame) (cap : Nat)
    (a : IoPoll Bytes × ChunkedDataDecodeReader) : Prop :=
  match a with
  | (.pending, d') => ∃ used : Bytes, Took field d g (used.map .byte ++ [.stall]) [] d'
  | (.ready (.ok x), d') => x.length ≤ cap ∧ (0 < cap → x = [] → d'.finished = true) ∧
      (d'.finished = true ∨ d'.pollChunkEnd = false) ∧ ∃ (used : Bytes) (stalled : Bool),
        Took field d g (used.map .byte ++ stallIf stalled) x d' ∧
        (stalled = false → d'.finished = true ∨ 0 < d'.leftChunkSize)
  | (.ready (.error _), d') => d'.Sound

theorem pollRead_spec (h : d.Tracks g) (cap : Nat) :
    ReadSpec field d g cap (d.pollRead cap) := by
  obtain ⟨u, hspec⟩ := pollDecode_ret field h cap
  unfold pollRead
  split
  case h_1 s hp =>
    rw [hp] at hspec
    obtain ⟨⟨hlen, used, hu⟩, he⟩ := hspec
    by_cases hf : s.filled.length > 0
    · rw [if_pos hf]
      exact ⟨hlen, fun _ h0 => by simp [h0] at hf, .inr he, used, true, hu, nofun⟩
    · rw [if_neg hf]
      have h0 : s.filled = [] := length_eq_zero_iff.mp (by omega)
      exact ⟨used, by rw [← h0]; exact hu⟩
  case h_2 hp => rw [hp] at hspec; exact hspec
  case h_3 x s hp =>
    rw [hp] at hspec
    obtain ⟨⟨hlen, used, hu⟩, hwhy⟩ := hspec
    refine ⟨hlen, ?_, hwhy.imp id (·.1), used, false, ?_, fun _ => hwhy.imp id (·.2.1)⟩
    · intro hcap h0
      rcases hwhy with hfin | ⟨-, -, hfull⟩
      · exact hfin
      · rw [h0] at hfull; simp at hfull; omega
    · rw [stallIf, if_neg (by simp), append_nil]; exact hu

variable {field}

theorem pollRead_sound (h : d.Sound) (cap : Nat) : (d.pollRead cap).2.Sound := by
  have hspec := pollRead_spec (fun _ => true) h.tracks cap
  generalize d.pollRead cap = a at hspec ⊢
  rcases a with ⟨_ | ⟨e | x⟩, d'⟩
  · obtain ⟨used, htook⟩ := hspec
    exact htook.tracks.toSound
  · exact hspec
  · obtain ⟨-, -, -, used, stalled, htook, -⟩ := hspec
    exact htook.tracks.toSound

end

/-! ### The end of a chunk -/

section

variable [AtoiRadix16] {field : Bytes → Bool} {d' : ChunkedDataDecodeReader}

/-- The decoder is before a size line of which it has read nothing. -/
def AtSizeLine (d : ChunkedDataDecodeReader) : Prop :=
  d.leftSize = some 0 ∧ d.pollChunkEnd = false ∧ d.chunkHeader = []

/-- `poll_finish_chunk_end` takes the chunk end and nothing else. -/
theorem finishChunkEndStep_ensures (field : Bytes → Bool) (h : d.Tracks g)
    (hend : d.endsChunk = true) :
    d.finishChunkEndStep.Ensures
      (fun d' => d'.endsChunk = true ∧ ∃ es, Took field d g es [] d')
      (fun _ d' => d'.AtSizeLine ∧ ∃ es, Took field d g es [] d') := by
  obtain ⟨hthis, hhdr, hleft⟩ := h.ends hend
  unfold finishChunkEndStep
  split
  case isTrue he =>
    exact ⟨⟨by simp [leftSize, clearChunkEnd, hleft], rfl, hhdr⟩, [], rfl, h.clearChunkEnd he hthis,
      by simp⟩
  case isFalse he =>
    rw [Bool.not_eq_true] at he
    have hin : d.InChunkEnd := ⟨h.toSound, hend⟩
    rw [if_pos (by rwa [Bool.or_comm])]
    have hkeep := (withBuf_inv closedInLineEnd hin.withReader (hin.step he)).2
    have hspec : FramingSpec field d g (d.withBuf closedInLineEnd
        (if d.pollChunkEndN then chunkEndN else chunkEndR)) := by
      refine withBuf_spec h (fun s buf => (hin.step he s buf).1) fun s buf d' => ?_
      split
      case isTrue hn => exact chunkEndN_took he h hn
      case isFalse hn =>
        rw [Bool.not_eq_true] at hn
        exact chunkEndR_took he h hn (by simpa [hn] using hend)
    generalize d.withBuf closedInLineEnd (if d.pollChunkEndN then chunkEndN else chunkEndR) = a
      at hkeep hspec ⊢
    rcases a with ⟨_ | ⟨e | u⟩, d'⟩
    · exact ⟨hkeep, _, Took.stall h hspec⟩
    · exact trivial
    · obtain ⟨u, -, htook⟩ := hspec
      exact ⟨hkeep, _, htook⟩

end

end ChunkedDataDecodeReader

end Vey.Http
