import Vey.Http.BodyReader
import Vey.Schemes.ChunkVerdict
import Vey.Schemes.Segments

/-! `HttpBodyReader` follows the strict reading of chunked framing.

    Each poll takes some bytes off the stream and hands exactly these to its caller, and the state
    of the reader moves as the automaton does on them. So what a reader has delivered at its end is
    one complete body, byte for byte as it stands in the stream.

    Every part of the reader has a fast path that looks one byte ahead and a slow path that is
    resumed from what it kept. Both get past the same bytes, and both fail on a stream that is
    judged to fail. A poll that fails may have taken bytes that it does not hand over, and all of
    these belong to the body. -/

namespace Vey.Http
open Schemes List Frame Source

variable {r : HttpBodyReader} {len : Nat}

namespace HttpBodyReader

variable (r)

/-- The place in the framing that the reader is at. -/
def frameSt : FrameSt :=
  match r.nextReadType with
  | .chunkSize =>
    if r.chunkSizeLineCache.getLast? = some cr then .sizeLf r.chunkSizeLineCache
    else .sizeLine r.chunkSizeLineCache
  | .fixedLength => .data (r.nextReadSize + r.leftTotalSize)
  | .chunkDataEnd c => if c = cr then .dataCr else .dataLf
  | .trailer =>
    if r.trailerLastChar = cr then .trailerLf r.trailerLineLength else .trailer r.trailerLineLength
  | .endOfFile => .done
  | .untilEnd => .bad

/-- The reader is where the automaton is, and its other fields are what that place needs. -/
structure Tracks (f : Frame) : Prop where
  chunked : r.bodyType = .chunked
  st : r.frameSt = f.st
  size : r.readContentLength = f.body.length
  live : r.nextReadType = .fixedLength → 0 < r.nextReadSize
  idle : r.nextReadType ≠ .fixedLength → r.nextReadSize = 0
  line : r.nextReadType ≠ .chunkSize → r.chunkSizeLineCache = []
  ending : ∀ c, r.nextReadType = .chunkDataEnd c → c = cr ∨ c = lf
  fresh : r.nextReadType ≠ .trailer → r.nextReadType ≠ .endOfFile →
    r.trailerLineLength = 0 ∧ r.trailerLastChar = 0
  fin : r.finished = true → r.nextReadType = .endOfFile
  fits : ¬Frame.TooLong r.bodyLineMaxLen f.st

/-- `update_next_read_size` splits what is left into this read and later ones. -/
theorem updateNextReadSize_eq (h : r.nextReadSize = 0) :
    ∃ ns ls, r.updateNextReadSize = { r with nextReadSize := ns, leftTotalSize := ls } ∧
      ns + ls = r.leftTotalSize ∧ (0 < r.leftTotalSize → 0 < ns) := by
  unfold updateNextReadSize
  by_cases hbig : r.leftTotalSize > usizeMax
  · exact ⟨_, _, if_pos hbig, by omega, fun _ => by decide⟩
  · rw [if_neg hbig]
    by_cases hpos : r.leftTotalSize > 0
    · exact ⟨_, _, if_pos hpos, rfl, fun h => h⟩
    · exact ⟨r.nextReadSize, r.leftTotalSize, if_neg hpos, by omega, by omega⟩

theorem updateNextReadSize_stream : r.updateNextReadSize.stream = r.stream := by
  unfold updateNextReadSize
  split
  · rfl
  · split <;> rfl

/-- Counting `nr` payload bytes: the chunk goes on, or its end comes next. -/
theorem advanceFixed_eq (nr : Nat) (h : nr ≤ r.nextReadSize) :
    ∃ ns ls t, r.advanceFixed nr = { r with
        readContentLength := r.readContentLength + nr
        nextReadSize := ns, leftTotalSize := ls, nextReadType := t } ∧
      ns + ls + nr = r.nextReadSize + r.leftTotalSize ∧
      (0 < ns ∧ t = r.nextReadType ∨
        ns + ls = 0 ∧ ns = 0 ∧ t = afterFixed r.bodyType r.nextReadType) := by
  unfold advanceFixed
  by_cases hz : r.nextReadSize - nr = 0
  · simp only [hz, if_true]
    obtain ⟨ns, ls, he, hsum, hpos⟩ := updateNextReadSize_eq
      { r with readContentLength := r.readContentLength + nr, nextReadSize := 0 } rfl
    simp only at hsum hpos
    rw [he]
    by_cases hns : ns = 0
    · exact ⟨0, ls, _, by simp [hns], by omega, .inr ⟨by omega, rfl, rfl⟩⟩
    · exact ⟨ns, ls, _, by simp [hns], by omega, .inl ⟨by omega, rfl⟩⟩
  · simp only [hz, if_false]
    exact ⟨_, _, _, rfl, by omega, .inl ⟨by omega, rfl⟩⟩

section

variable {r} [AtoiRadix16] {r' r₁ : HttpBodyReader} {f g : Frame} {room : Nat} {s : Source}
  {es : List Event} {x : Bytes} {b : UInt8}

/-- The reader has passed the events `es` of its stream. -/
structure Handed (r : HttpBodyReader) (f : Frame) (es : List Event) (r' : HttpBodyReader) : Prop where
  events : es ++ r'.stream.events = r.stream.events
  calm : ∀ e, .fail e ∉ es
  tracks : r'.Tracks (Frame.feed sizeOf f (bytesOf es))
  bound : r'.bodyLineMaxLen = r.bodyLineMaxLen
  gets : Frame.Gets sizeOf r.bodyLineMaxLen f (bytesOf es)

theorem Handed.refl (h : r.Tracks f) : r.Handed f [] r :=
  ⟨rfl, fun _ => nofun, h, rfl, gets_nil f⟩

theorem Handed.trans {es' : List Event} (h : r.Handed f es r₁)
    (h' : r₁.Handed (feed sizeOf f (bytesOf es)) es' r') : r.Handed f (es ++ es') r' where
  events := by rw [append_assoc, h'.events, h.events]
  calm e he := (mem_append.mp he).elim (h.calm e) (h'.calm e)
  tracks := by
    rw [bytesOf_append, feed_append]
    exact h'.tracks
  bound := h'.bound.trans h.bound
  gets := by
    rw [bytesOf_append]
    exact h.gets.append (h.bound ▸ h'.gets)

theorem Handed.content (h : r.Handed f es r') : bytesOf es ++ r'.stream.content = r.stream.content :=
  content_of_events h.events

theorem Handed.sound (h : r.Handed f es r') : bytesOf es ++ r'.stream.sound = r.stream.sound :=
  sound_of_events h.calm h.events

/-- A poll has failed: the stream is judged to fail, and what was taken off it is met by an open
    reading. -/
def Fails (r : HttpBodyReader) (f : Frame) (r' : HttpBodyReader) : Prop :=
  (∃ t, t ++ r'.stream.content = r.stream.content ∧ Frame.Live sizeOf f t) ∧
  Frame.verdict sizeOf r.bodyLineMaxLen f r.stream.sound = .failed r'.readContentLength

theorem Handed.fails (h : r.Handed f es r₁) (h' : r₁.Fails (feed sizeOf f (bytesOf es)) r') :
    r.Fails f r' := by
  obtain ⟨⟨t, ht, hlive⟩, hv⟩ := h'
  refine ⟨⟨bytesOf es ++ t, ?_, live_append.mpr ⟨h.gets.live, hlive⟩⟩, ?_⟩
  · rw [append_assoc, ht, h.content]
  · rw [← h.sound, h.gets.passes, ← h.bound]
    exact hv

/-- What one part of a body owes its caller: the bytes it hands over are those it took off the
    stream. -/
def Answer.Follows (r : HttpBodyReader) (f : Frame) : Answer → Prop
  | (.pending, r') => r.Handed f [.stall] r'
  | (.ready (.ok out), r') => r.Handed f (out.map .byte) r' ∧ out ≠ []
  | (.ready (.error _), r') => r.Fails f r'

omit [AtoiRadix16] in
theorem Tracks.withStream (h : r.Tracks f) (s : Source) :
    ({ r with stream := s } : HttpBodyReader).Tracks f := { h with }

omit [AtoiRadix16] in
/-- Before the end of a body nothing is marked finished. -/
theorem Tracks.not_finished (h : r.Tracks f) (ht : r.nextReadType ≠ .endOfFile) :
    r.finished = false := by
  cases hf : r.finished with
  | false => rfl
  | true => exact absurd (h.fin hf) ht

theorem Tracks.stalls (h : r.Tracks f) (hs : .stall :: s.events = r.stream.events) :
    r.Handed f [.stall] { r with stream := s } :=
  ⟨hs, by simp, h.withStream s, rfl, gets_nil f⟩

/-- Nothing can be read, and the body is not at its end. -/
theorem Tracks.ends (h : r.Tracks f) (hst : f.st ≠ .done) (hsame : s.content = r.stream.content)
    (hnil : r.stream.sound = []) : r.Fails f { r with stream := s } :=
  ⟨⟨[], hsame, trivial⟩, by rw [hnil, verdict_nil hst, h.size]⟩

/-- Bytes `x` are handed over. -/
theorem follows_ok (hevents : x.map .byte ++ r'.stream.events = r.stream.events)
    (htr : r'.Tracks (feed sizeOf f x)) (hbound : r'.bodyLineMaxLen = r.bodyLineMaxLen)
    (hgets : Gets sizeOf r.bodyLineMaxLen f x) (hne : x ≠ []) :
    Answer.Follows r f (.ready (.ok x), r') := by
  refine ⟨⟨hevents, by simp, ?_, hbound, ?_⟩, hne⟩ <;> rw [bytesOf_map_byte] <;> assumption

section

variable (h : r.Tracks f)

include h

/-- Bytes `x` lie ahead, and the state behind them is judged to fail. -/
theorem Tracks.breaks (hevents : x.map .byte ++ s.events = r.stream.events)
    (hgets : Gets sizeOf r.bodyLineMaxLen f x) (hfeed : feed sizeOf f x = g)
    (hbody : g.body = f.body) (hbad : Doomed r.bodyLineMaxLen g.st) {t : Bytes}
    (ht : t ++ r'.stream.content = r.stream.content) (hlive : Live sizeOf f t)
    (hsize : r'.readContentLength = r.readContentLength) : r.Fails f r' := by
  have hsound := sound_of_events (by simp) hevents
  rw [bytesOf_map_byte] at hsound
  refine ⟨⟨t, ht, hlive⟩, ?_⟩
  rw [← hsound, hgets.passes, hfeed, verdict_doomed hbad, hbody, hsize, h.size]

/-- A check leaves the reader behind `g`, or `g` is broken. -/
def ChecksTo (r : HttpBodyReader) (g : Frame) : Except IoError HttpBodyReader → Prop
  | .ok r' => r'.Tracks g ∧ r'.stream = r.stream ∧ r'.bodyLineMaxLen = r.bodyLineMaxLen
  | .error _ => g.st = .bad

/-- The byte behind the CR of a line: it is taken off the stream, and handed over if the check on it
    succeeds. -/
theorem Tracks.checked {out : Bytes} {c : Except IoError HttpBodyReader}
    (hevents : (x ++ [b]).map .byte ++ r₁.stream.events = r.stream.events)
    (hx : Gets sizeOf r.bodyLineMaxLen f x) (hfeed : feed sizeOf f x = g) (hopen : g.Open)
    (hfits : ¬TooLong r.bodyLineMaxLen g.st) (hbody : (step sizeOf g b).body = f.body)
    (hbound : r₁.bodyLineMaxLen = r.bodyLineMaxLen)
    (hsize : r₁.readContentLength = r.readContentLength) (hc : r₁.ChecksTo (step sizeOf g b) c)
    (hout : ∀ r', c = .ok r' → out = x ++ [b]) : (checked r₁ out c).Follows r f := by
  have hall : Gets sizeOf r.bodyLineMaxLen f (x ++ [b]) :=
    hx.append (hfeed ▸ gets_one hopen hfits)
  have hlast : feed sizeOf f (x ++ [b]) = step sizeOf g b := by
    rw [feed_append, hfeed]
    rfl
  cases c with
  | error e =>
    have hcont := content_of_events hevents
    rw [bytesOf_map_byte] at hcont
    exact h.breaks hevents hall hlast hbody (.inl hc) hcont hall.live hsize
  | ok r' =>
    obtain ⟨htr, hstream, hmax⟩ := hc
    rw [hout r' rfl]
    exact follows_ok (hstream ▸ hevents) (hlast ▸ htr) (hmax.trans hbound) hall (by simp)

/-- `withCache` fails where the stream ends or fails. -/
theorem withCache_follows {closed : String} {k : HttpBodyReader → Bytes → Answer}
    (hst : f.st ≠ .done) (hroom : 0 < room) (hk : ∀ s c, c ≠ [] → s.content = r.stream.content →
      (∀ n ≤ c.length, (c.take n).map .byte ++ (s.consume n).events = r.stream.events) →
      (k { r with stream := s } c).Follows r f) : (withCache r room closed k).Follows r f := by
  have hsame := pollFillBuf_content r.stream
  unfold withCache
  split
  case h_1 s hf => exact h.stalls (r.stream.pollFillBuf_events.2 hf)
  case h_2 e s hf => exact h.ends hst (by rw [← hsame, hf]) (sound_of_fill_error hf)
  case h_3 cache s hf =>
    obtain ⟨hbuf, hs, hend⟩ := pollFillBuf_ok hf
    split
    case isTrue h0 =>
      have hnil : r.stream.content = [] := hs ▸ hend (length_eq_zero_iff.mp h0)
      exact h.ends hst hs (sound_of_end hnil)
    case isFalse hne =>
      refine hk s (cache.take room) ?_ hs ?_
      · intro h0
        have := congrArg length h0
        simp only [length_take, length_nil] at this
        omega
      · intro n hn
        rw [length_take] at hn
        rw [take_take, Nat.min_eq_left (by omega), ← hbuf, consume_events,
          r.stream.pollFillBuf_events.1 hf]

theorem pollFixed_follows (ht : r.nextReadType = .fixedLength) (hroom : 0 < room) :
    (r.pollFixed room).Follows r f := by
  obtain ⟨st, body⟩ := f
  have hlive := h.live ht
  obtain rfl : st = .data (r.nextReadSize + r.leftTotalSize) := by
    rw [← show r.frameSt = st from h.st, frameSt, ht]
  unfold pollFixed
  split
  case h_1 s hp => exact h.stalls (pollRead_events.2 hp)
  case h_2 e s hp =>
    exact h.ends nofun (pollRead_error_content hp) (sound_of_read_error hp)
  case h_3 d s hp =>
    obtain ⟨hcont, hlen, hend⟩ := pollRead_ok hp
    split
    case isTrue h0 =>
      obtain rfl := length_eq_zero_iff.mp h0
      exact h.ends nofun hcont (sound_of_end (hcont ▸ hend (by omega) rfl))
    case isFalse hne =>
      obtain ⟨ns, ls, t, he, hsum, hcase⟩ :=
        advanceFixed_eq { r with stream := s } d.length (by simp only; omega)
      simp only at hsum hcase
      rw [he]
      refine follows_ok (pollRead_events.1 hp) ?_ rfl (gets_data (by omega))
        fun h0 => hne (by simp [h0])
      have hsize : r.readContentLength + d.length = (body ++ d).length := by simp [h.size]
      rw [feed_data (by omega) (by omega)]
      rcases hcase with ⟨hns, rfl⟩ | ⟨hz, hns, rfl⟩
      · have hleft : r.nextReadSize + r.leftTotalSize - d.length = ns + ls := by omega
        exact { h with
          st := by simp [frameSt, ht, hleft, dataSt, show ¬(ns = 0 ∧ ls = 0) by omega]
          size := hsize
          live := fun _ => hns
          idle := by simp [ht]
          fits := not_tooLong_dataSt _ }
      · have hleft : r.nextReadSize + r.leftTotalSize - d.length = 0 := by omega
        have hafter : afterFixed r.bodyType r.nextReadType = .chunkDataEnd cr := by
          rw [h.chunked]; rfl
        simp only [hafter]
        exact { h with
          st := by simp [frameSt, hleft, dataSt]
          size := hsize
          live := by simp
          idle := fun _ => hns
          line := fun _ => h.line (by simp [ht])
          ending := by simp
          fresh := fun _ _ => h.fresh (by simp [ht]) (by simp [ht])
          fin := by simp [h.not_finished (by simp [ht])]
          fits := not_tooLong_dataSt _ }

/-! #### The size line -/

omit [AtoiRadix16] in
/-- A size line that goes on. -/
theorem Tracks.sizeLine_more {line : Bytes} {st : FrameSt} (ht : r.nextReadType = .chunkSize)
    (hst : st = if line.getLast? = some cr then .sizeLf line else .sizeLine line)
    (hfits : ¬TooLong r.bodyLineMaxLen st) :
    ({ r with stream := s, chunkSizeLineCache := line } : HttpBodyReader).Tracks ⟨st, f.body⟩ :=
  { h with
    st := by simp only [frameSt, ht, hst]
    line := by simp [ht]
    fits := hfits }

/-- The byte behind the CR of a size line. -/
theorem Tracks.sizeLine_check {line : Bytes} (ht : r.nextReadType = .chunkSize) :
    let r₁ := { r with stream := s, chunkSizeLineCache := line }
    r₁.ChecksTo (step sizeOf ⟨.sizeLf line, f.body⟩ b) (r₁.checkChunkSizeLastChar b) := by
  intro r₁
  have hfits : ¬TooLong r.bodyLineMaxLen (step sizeOf ⟨.sizeLf line, f.body⟩ b).st :=
    not_tooLong_sizeLf_step
  unfold checkChunkSizeLastChar
  split
  case isTrue hne => simp only [ChecksTo, step, if_neg hne]
  case isFalse heq =>
    obtain rfl : b = lf := not_not.mp heq
    have hfin := h.not_finished (by simp [ht])
    have hfresh := h.fresh (by simp [ht]) (by simp [ht])
    simp only [step, if_true] at hfits ⊢
    unfold parseChunkSizeAndUpdateNextReadType
    split
    case h_1 e hp =>
      simp only [ChecksTo, sizeOf, show HttpChunkedLine.parse (line ++ [lf]) = _ from hp]
      rfl
    case h_2 chunk hp =>
      have hsize : sizeOf (line ++ [lf]) = some chunk.chunkSize := by
        rw [sizeOf, show HttpChunkedLine.parse (line ++ [lf]) = .ok chunk from hp]; rfl
      rw [hsize] at hfits ⊢
      by_cases hz : chunk.chunkSize = 0
      · simp only [hz, if_true] at hfits ⊢
        refine ⟨{ h with
          st := by simp [frameSt, r₁, hfresh, afterSize, show (0 : UInt8) ≠ cr by decide]
          live := by simp
          idle := fun _ => h.idle (by simp [ht])
          line := fun _ => rfl
          ending := by simp
          fresh := by simp
          fin := by simp [r₁, hfin]
          fits := hfits }, rfl, rfl⟩
      · simp only [hz, if_false]
        obtain ⟨ns, ls, he, hsum, hpos⟩ := updateNextReadSize_eq
          { r₁ with
            chunkSizeLineCache := line ++ [lf], currentChunkSize := chunk.chunkSize
            nextReadType := .fixedLength, leftTotalSize := chunk.chunkSize }
          (h.idle (by simp [ht]))
        simp only at hsum hpos
        rw [he]
        refine ⟨{ h with
          st := ?_
          live := fun _ => hpos (by omega)
          idle := by simp
          line := fun _ => rfl
          ending := by simp
          fresh := fun _ _ => hfresh
          fin := by simp [r₁, hfin]
          fits := hfits }, rfl, rfl⟩
        obtain ⟨n, hn⟩ := Nat.exists_eq_succ_of_ne_zero hz
        simp [frameSt, hsum, hn, afterSize]

theorem pollChunkSize_follows (ht : r.nextReadType = .chunkSize) (hroom : 0 < room) :
    (r.pollChunkSize room).Follows r f := by
  obtain ⟨st, body⟩ := f
  have hst : st = if r.chunkSizeLineCache.getLast? = some cr then .sizeLf r.chunkSizeLineCache
      else .sizeLine r.chunkSizeLineCache := by
    rw [← show r.frameSt = st from h.st, frameSt, ht]
  refine withCache_follows h (by rw [hst]; split <;> simp) hroom fun s c hne hsame htake => ?_
  unfold chunkSizeIn
  dsimp only
  split
  case isTrue hcr =>
    -- the line is complete but for its LF
    rw [if_pos hcr] at hst
    subst hst
    obtain ⟨b, cs, rfl⟩ := exists_cons_of_ne_nil hne
    exact h.checked (x := []) (htake 1 (by simp)) (gets_nil _) rfl ⟨by simp, by simp⟩ h.fits rfl rfl
      rfl (h.sizeLine_check ht) fun _ _ => rfl
  case isFalse hcr =>
    rw [if_neg hcr] at hst
    subst hst
    split
    case h_1 offset hm =>
      have hlt := memchr_lt hm
      have hlen : (r.chunkSizeLineCache ++ c.take (offset + 1)).length =
          r.chunkSizeLineCache.length + (offset + 1) := by
        rw [length_append, length_take, Nat.min_eq_left hlt]
      have hgets : Gets sizeOf r.bodyLineMaxLen ⟨.sizeLine r.chunkSizeLineCache, body⟩
          (c.take (offset + 1)) := gets_cr trivial hm
      have hfeed : feed sizeOf ⟨.sizeLine r.chunkSizeLineCache, body⟩ (c.take (offset + 1)) =
          ⟨.sizeLf (r.chunkSizeLineCache ++ c.take (offset + 1)), body⟩ := by
        rw [memchr_take hm, feed_append, feed_sizeLine (memchr_some hm).1]
        simp [step]
      split
      case isTrue hlong =>
        exact h.breaks (htake _ hlt) hgets hfeed rfl (.inr (hlong.trans_eq hlen.symm)) (t := []) hsame
          trivial rfl
      case isFalse hshort =>
        have hfits : ¬TooLong r.bodyLineMaxLen
            (.sizeLf (r.chunkSizeLineCache ++ c.take (offset + 1))) := fun hlong =>
          hshort (Nat.le_trans hlong (Nat.le_of_eq hlen))
        split
        case isTrue hmore =>
          refine h.checked ?_ hgets hfeed ⟨by simp, by simp⟩ hfits rfl rfl rfl (h.sizeLine_check ht)
            fun _ _ => rfl
          rw [← take_succ_getD hmore 0]
          exact htake (offset + 1 + 1) hmore
        case isFalse =>
          refine follows_ok (htake _ hlt) ?_ rfl hgets (by simp [hne])
          rw [hfeed]
          refine h.sizeLine_more ht ?_ hfits
          simp [memchr_take hm]
    case h_2 hm =>
      have hno := memchr_none hm
      have hgets : Gets sizeOf r.bodyLineMaxLen ⟨.sizeLine r.chunkSizeLineCache, body⟩ c ∧ _ :=
        gets_line trivial hno
      have hfeed : feed sizeOf ⟨.sizeLine r.chunkSizeLineCache, body⟩ c =
          ⟨.sizeLine (r.chunkSizeLineCache ++ c), body⟩ := feed_sizeLine hno
      have hall := htake c.length (Nat.le_refl _)
      rw [take_length] at hall
      have hlen : (r.chunkSizeLineCache ++ c).length = r.chunkSizeLineCache.length + c.length :=
        length_append
      have hpos := length_pos_iff.mpr hne
      split
      case isTrue hlong =>
        exact h.breaks hall hgets.1 hfeed rfl (.inr ⟨by omega, hlen ▸ hlong⟩) (t := []) hsame
          trivial rfl
      case isFalse hshort =>
        refine follows_ok hall ?_ rfl hgets.1 hne
        rw [hfeed]
        refine h.sizeLine_more ht ?_ fun hlong => hshort (hlen ▸ hlong.2)
        have hlast : (r.chunkSizeLineCache ++ c).getLast? ≠ some cr := by
          rw [getLast?_append_of_ne_nil _ hne]
          exact fun hl => hno (mem_of_getLast? hl)
        rw [if_neg hlast]

/-! #### The end of a chunk -/

theorem pollChunkDataEnd_follows {c : UInt8} (ht : r.nextReadType = .chunkDataEnd c)
    (hroom : 0 < room) : (r.pollChunkDataEnd room c).Follows r f := by
  obtain ⟨st, body⟩ := f
  have hst : st = if c = cr then .dataCr else .dataLf := by
    rw [← show r.frameSt = st from h.st, frameSt, ht]
  have hopen : Open ⟨st, body⟩ := by
    rw [hst]
    split <;> exact ⟨by simp, by simp⟩
  have hone : ∀ b, Gets sizeOf r.bodyLineMaxLen ⟨st, body⟩ [b] := fun b =>
    gets_one hopen h.fits
  -- the reader inside the line end, and between two chunks
  have hmid : ∀ s', ({ r with stream := s', nextReadType := .chunkDataEnd lf } :
      HttpBodyReader).Tracks ⟨.dataLf, body⟩ := fun s' =>
    { h with
      st := by simp [frameSt, show lf ≠ cr by decide]
      live := by simp
      idle := fun _ => h.idle (by simp [ht])
      line := fun _ => h.line (by simp [ht])
      ending := by simp
      fresh := fun _ _ => h.fresh (by simp [ht]) (by simp [ht])
      fin := by simp [h.not_finished (by simp [ht])]
      fits := id }
  have hnext : ∀ s', ({ r with stream := s', nextReadType := .chunkSize } :
      HttpBodyReader).Tracks ⟨.sizeLine [], body⟩ := fun s' =>
    { h with
      st := by simp [frameSt, h.line (by simp [ht])]
      live := by simp
      idle := fun _ => h.idle (by simp [ht])
      line := by simp
      ending := by simp
      fresh := fun _ _ => h.fresh (by simp [ht]) (by simp [ht])
      fin := by simp [h.not_finished (by simp [ht])]
      fits := fun hlong => absurd hlong.1 (Nat.lt_irrefl 0) }
  refine withCache_follows h hopen.1 hroom fun s cache hne hsame htake => ?_
  obtain ⟨b, cs, rfl⟩ := exists_cons_of_ne_nil hne
  have hfirst : [b].map .byte ++ (s.consume 1).events = r.stream.events := htake 1 (by simp)
  unfold chunkDataEndIn
  split
  case isTrue hb =>
    have hbc : b ≠ c := hb
    have hbad : feed sizeOf ⟨st, body⟩ [b] = ⟨.bad, body⟩ := by
      rcases h.ending c ht with rfl | rfl
      · simp [hst, step, hbc]
      · simp [hst, step, hbc, show lf ≠ cr by decide]
    exact h.breaks hfirst (hone b) hbad rfl (.inl rfl) (t := []) hsame trivial rfl
  case isFalse hb =>
    obtain rfl : b = c := not_not.mp hb
    split
    case isTrue hcr =>
      subst hcr
      rw [if_pos rfl] at hst
      subst hst
      have hcrlf : feed sizeOf ⟨.dataCr, body⟩ [cr] = ⟨.dataLf, body⟩ := by simp [step]
      split
      case isTrue hmore =>
        obtain ⟨b', cs', rfl⟩ := exists_cons_of_ne_nil
          (l := cs) (by rintro rfl; simp at hmore)
        refine h.checked (x := [cr]) (htake 2 (by simp)) (hone cr) hcrlf ⟨by simp, by simp⟩ id rfl
          rfl rfl
          (b := b') ?_ fun r' hok => ?_
        · unfold checkChunkDataEndLastChar
          split
          case isTrue hne' => simp only [ChecksTo, step, if_neg (show b' ≠ lf from hne')]
          case isFalse heq =>
            obtain rfl : b' = lf := not_not.mp heq
            exact ⟨hnext _, rfl, rfl⟩
        · unfold checkChunkDataEndLastChar at hok
          split at hok
          · cases hok
          next heq => rw [show b' = lf from not_not.mp heq]; rfl
      case isFalse => exact follows_ok hfirst (hcrlf ▸ hmid _) rfl (hone cr) (by simp)
    case isFalse hcr =>
      obtain rfl : b = lf := (h.ending b ht).resolve_left hcr
      rw [if_neg hcr] at hst
      subst hst
      exact follows_ok hfirst (hnext _) rfl (hone lf) (by simp)

/-! #### The trailer -/

omit [AtoiRadix16] in
/-- A trailer line that goes on. -/
theorem Tracks.trailer_more {last : UInt8} {st : FrameSt} (ht : r.nextReadType = .trailer)
    (hst : st = if last = cr then .trailerLf len else .trailer len)
    (hfits : ¬TooLong r.bodyLineMaxLen st) :
    ({ r with stream := s, trailerLastChar := last, trailerLineLength := len } :
      HttpBodyReader).Tracks ⟨st, f.body⟩ :=
  { h with
    st := by simp only [frameSt, ht, hst]
    fresh := by simp [ht]
    fits := hfits }

/-- The byte behind the CR of a trailer line. -/
theorem Tracks.trailer_check (ht : r.nextReadType = .trailer)
    (hr₁ : r₁ = { r with stream := s, trailerLastChar := cr, trailerLineLength := len }) :
    r₁.ChecksTo (step sizeOf ⟨.trailerLf len, f.body⟩ b) (r₁.checkTrailerHeaderLastChar b) := by
  subst hr₁
  unfold checkTrailerHeaderLastChar
  split
  case isTrue hne => simp only [ChecksTo, step, if_neg hne]
  case isFalse heq =>
    obtain rfl : b = lf := not_not.mp heq
    have hline := h.line (by simp [ht])
    have hidle := h.idle (by simp [ht])
    simp only [updateNextReadTypeAfterTrailerHeader, step, if_true]
    by_cases hz : len = 0
    · simp only [hz, if_true]
      exact ⟨{ h with
        st := by simp [frameSt]
        live := by simp
        idle := fun _ => hidle
        line := fun _ => hline
        ending := by simp
        fresh := by simp
        fin := by simp
        fits := id }, rfl, rfl⟩
    · simp only [hz, if_false]
      exact ⟨{ h with
        st := by simp [frameSt, show (0 : UInt8) ≠ cr by decide]
        live := by simp
        idle := fun _ => hidle
        line := fun _ => hline
        ending := by simp
        fresh := by simp
        fin := by simp [h.not_finished (by simp [ht])]
        fits := fun hlong => absurd hlong.1 (Nat.lt_irrefl 0) }, rfl, rfl⟩

theorem pollTrailer_follows (ht : r.nextReadType = .trailer) (hroom : 0 < room) :
    (r.pollTrailer room).Follows r f := by
  obtain ⟨st, body⟩ := f
  have hst : st = if r.trailerLastChar = cr then .trailerLf r.trailerLineLength
      else .trailer r.trailerLineLength := by
    rw [← show r.frameSt = st from h.st, frameSt, ht]
  refine withCache_follows h (by rw [hst]; split <;> simp) hroom fun s c hne hsame htake => ?_
  unfold trailerIn
  dsimp only
  split
  case isTrue hcr =>
    rw [if_pos hcr] at hst
    subst hst
    obtain ⟨b, cs, rfl⟩ := exists_cons_of_ne_nil hne
    refine h.checked (x := []) (htake 1 (by simp)) (gets_nil _) rfl ⟨by simp, by simp⟩ h.fits rfl rfl
      rfl (h.trailer_check ht (s := s.consume 1) ?_) fun _ _ => rfl
    rw [← hcr]
    rfl
  case isFalse hcr =>
    rw [if_neg hcr] at hst
    subst hst
    split
    case h_1 offset hm =>
      have hlt := memchr_lt hm
      have hgets : Gets sizeOf r.bodyLineMaxLen ⟨.trailer r.trailerLineLength, body⟩
          (c.take (offset + 1)) := gets_cr trivial hm
      have hfeed : feed sizeOf ⟨.trailer r.trailerLineLength, body⟩ (c.take (offset + 1)) =
          ⟨.trailerLf (r.trailerLineLength + offset), body⟩ := by
        rw [memchr_take hm, feed_append, feed_trailer (memchr_some hm).1, length_take,
          Nat.min_eq_left (Nat.le_of_lt hlt)]
        simp [step]
      split
      case isTrue hlong =>
        exact h.breaks (htake _ hlt) hgets hfeed rfl (.inr hlong) (t := []) hsame trivial rfl
      case isFalse hshort =>
        split
        case isTrue hmore =>
          refine h.checked ?_ hgets hfeed ⟨by simp, by simp⟩ hshort rfl rfl rfl (h.trailer_check ht rfl)
            fun _ _ => rfl
          rw [← take_succ_getD hmore 0]
          exact htake (offset + 1 + 1) hmore
        case isFalse =>
          refine follows_ok (htake _ hlt) ?_ rfl hgets (by simp [hne])
          rw [hfeed]
          exact h.trailer_more ht (by simp) hshort
    case h_2 hm =>
      have hno := memchr_none hm
      have hgets : Gets sizeOf r.bodyLineMaxLen ⟨.trailer r.trailerLineLength, body⟩ c ∧ _ :=
        gets_line trivial hno
      have hfeed : feed sizeOf ⟨.trailer r.trailerLineLength, body⟩ c =
          ⟨.trailer (r.trailerLineLength + c.length), body⟩ := feed_trailer hno
      have hall := htake c.length (Nat.le_refl _)
      rw [take_length] at hall
      have hpos := length_pos_iff.mpr hne
      split
      case isTrue hlong =>
        exact h.breaks hall hgets.1 hfeed rfl (.inr ⟨by omega, hlong⟩) (t := []) hsame trivial rfl
      case isFalse hshort =>
        refine follows_ok hall ?_ rfl hgets.1 hne
        rw [hfeed]
        refine h.trailer_more ht ?_ fun hlong => hshort hlong.2
        have hlast : c.getLastD 0 ≠ cr := by
          intro hl
          rw [getLastD_eq_getLast?, getLast?_eq_getLast_of_ne_nil hne] at hl
          exact hno (hl ▸ getLast_mem hne)
        rw [if_neg hlast]

theorem pollPart_follows (hmore : r.nextReadType ≠ .endOfFile) (hroom : 0 < room) :
    (r.pollPart room).Follows r f := by
  unfold pollPart
  cases hnt : r.nextReadType with
  | endOfFile => exact absurd hnt hmore
  | untilEnd =>
    have hst : f.st = .bad := by rw [← h.st, frameSt, hnt]
    refine ⟨⟨[], rfl, trivial⟩, ?_⟩
    rw [verdict_doomed (.inl hst), h.size]
  | fixedLength => exact pollFixed_follows h hnt hroom
  | chunkSize => exact pollChunkSize_follows h hnt hroom
  | chunkDataEnd c => exact pollChunkDataEnd_follows h hnt hroom
  | trailer => exact pollTrailer_follows h hnt hroom

end

end

/-! ### A whole poll -/

section

variable [AtoiRadix16]

/-- What `poll_chunked` owes once it has put `out` into a buffer of `cap` bytes. It stops short of a
    full buffer at the end of the body, or at a stall, which it passes behind some bytes. -/
def Answer.Concludes (r : HttpBodyReader) (f : Frame) (cap : Nat) (out : Bytes) : Answer → Prop
  | (.pending, r') => out = [] ∧ r.Handed f [.stall] r'
  | (.ready (.ok all), r') => ∃ es, all = out ++ bytesOf es ∧ r.Handed f es r' ∧
      (all.length < cap → r'.finished = true ∨ .stall ∈ es ∧ all ≠ [])
  | (.ready (.error _), r') => r.Fails f r'

theorem pollChunkedLoop_concludes {cap : Nat} : ∀ {n : Nat} {r : HttpBodyReader} {f : Frame}
    {out : Bytes}, r.Tracks f → cap ≤ out.length + n →
    (pollChunkedLoop cap n r out).Concludes r f cap out
  | 0, r, f, out, h, hn => ⟨[], by simp, .refl h, fun hlt => absurd hlt (by omega)⟩
  | n + 1, r, f, out, h, hn => by
    unfold pollChunkedLoop
    split
    case isTrue hfull => exact ⟨[], by simp, .refl h, fun hlt => absurd hlt (by omega)⟩
    case isFalse hfull =>
      split
      case isTrue heof =>
        exact ⟨[], by simp, { Handed.refl h with tracks := { h with fin := fun _ => heof } },
          fun _ => .inl rfl⟩
      case isFalse heof =>
        have hpart := pollPart_follows h heof (show 0 < cap - out.length by omega)
        split
        case h_1 r' hp =>
          rw [hp] at hpart
          split
          next hout => exact ⟨[.stall], by simp, hpart,
            fun _ => .inr ⟨by simp, fun h0 => hout (by simp [h0])⟩⟩
          next hout => exact ⟨by simpa using hout, hpart⟩
        case h_2 e r' hp =>
          rw [hp] at hpart
          exact hpart
        case h_3 d r' hp =>
          rw [hp] at hpart
          obtain ⟨hd, hne⟩ := hpart
          have hpos := length_pos_iff.mpr hne
          have hlen : (out ++ d).length = out.length + d.length := length_append
          rw [if_neg (by omega)]
          have ih := pollChunkedLoop_concludes hd.tracks (show cap ≤ (out ++ d).length + n by omega)
          generalize pollChunkedLoop cap n r' (out ++ d) = ans at ih
          match ans, ih with
          | (.pending, _), ⟨h0, _⟩ => simp [hne] at h0
          | (.ready (.error _), _), hfail => exact hd.fails hfail
          | (.ready (.ok all), r''), ⟨es, hall, hes, hstop⟩ =>
            refine ⟨d.map .byte ++ es, by simp [hall], hd.trans hes, fun hlt => ?_⟩
            exact (hstop hlt).imp id fun hs => ⟨mem_append_right _ hs.1, hs.2⟩

variable {r} {r' : HttpBodyReader} {f : Frame} {cap : Nat} {d x : Bytes}

/-- One `poll_read` of a chunked body. -/
theorem Tracks.pollRead (h : r.Tracks f) (cap : Nat) : (r.pollRead cap).Concludes r f cap [] := by
  rw [HttpBodyReader.pollRead, h.chunked]
  exact pollChunkedLoop_concludes h (by simp)

/-- A read hands over what it takes off the stream, and less than there is room for at the end of the
    body or at a stall only. -/
theorem Tracks.read (h : r.Tracks f) (hp : r.pollRead cap = (.ready (.ok x), r')) :
    ∃ es, bytesOf es = x ∧ r.Handed f es r' ∧
      (x.length < cap → r'.finished = true ∨ .stall ∈ es ∧ x ≠ []) := by
  have hx := h.pollRead cap
  rw [hp] at hx
  obtain ⟨es, rfl, hes, hstop⟩ := hx
  exact ⟨es, rfl, hes, hstop⟩

theorem Tracks.stall (h : r.Tracks f) (hp : r.pollRead cap = (.pending, r')) :
    r.Handed f [.stall] r' := by
  have hx := h.pollRead cap
  rw [hp] at hx
  exact hx.2

theorem Tracks.fail {e : IoError} (h : r.Tracks f) (hp : r.pollRead cap = (.ready (.error e), r')) :
    r.Fails f r' := by
  have hx := h.pollRead cap
  rwa [hp] at hx

/-- A chunked reader as a copy sees it: `d` was delivered since it was `r`. -/
def chunkedSpec (r : HttpBodyReader) (f : Frame) : ReaderSpec HttpBodyReader where
  rel d r' := ∃ es, bytesOf es = d ∧ r.Handed f es r'
  eof r' := r'.nextReadType = .endOfFile
  read := by
    rintro _ x r₁ r₂ cap ⟨es, rfl, h⟩ - hp
    obtain ⟨es', rfl, h', -⟩ := h.tracks.read hp
    exact ⟨es ++ es', bytesOf_append _ _, h.trans h'⟩
  stall := by
    rintro _ r₁ r₂ cap ⟨es, rfl, h⟩ - hp
    exact ⟨es ++ [.stall], by simp, h.trans (h.tracks.stall hp)⟩
  stop := by
    rintro _ r₁ r₂ cap ⟨es, rfl, h⟩ hcap hp
    obtain ⟨es', -, h', hstop⟩ := h.tracks.read hp
    exact h'.tracks.fin ((hstop hcap).resolve_right fun hs => hs.2 rfl)

/-- A run of reads delivers what it takes off the stream. -/
theorem Tracks.reads (h : r.Tracks f) (hr : Reads HttpBodyReader.pollRead r d r') :
    ∃ es, bytesOf es = d ∧ r.Handed f es r' := by
  induction hr with
  | start => exact ⟨[], rfl, .refl h⟩
  | read _ hp ih =>
    obtain ⟨es, rfl, hes⟩ := ih
    obtain ⟨es', rfl, hes', -⟩ := hes.tracks.read hp
    exact ⟨es ++ es', bytesOf_append _ _, hes.trans hes'⟩
  | stall _ hp ih =>
    obtain ⟨es, rfl, hes⟩ := ih
    exact ⟨es ++ [.stall], by simp, hes.trans (hes.tracks.stall hp)⟩

/-- A reader of `len` bytes that has delivered `d` off `input`. -/
structure Remaining (len : Nat) (input d : Bytes) (r : HttpBodyReader) : Prop where
  stream : d ++ r.stream.content = input
  fixed : ∃ l, r.bodyType = .contentLength l
  size : r.readContentLength = d.length
  left : r.nextReadType = .fixedLength ∧ 0 < r.nextReadSize ∧
      d.length + (r.nextReadSize + r.leftTotalSize) = len ∨
    r.nextReadType = .endOfFile ∧ d.length = len
  fin : r.finished = true → r.nextReadType = .endOfFile

/-- What one poll of such a reader does. -/
def Answer.Counts (len : Nat) (input d : Bytes) : Answer → Prop
  | (.pending, r') => r'.Remaining len input d
  | (.ready (.ok x), r') => r'.Remaining len input (d ++ x) ∧ (x = [] → r'.nextReadType = .endOfFile)
  | (.ready (.error _), r') => r'.Remaining len input d

theorem Remaining.pollRead {input d : Bytes}
    (h : r.Remaining len input d) (cap : Nat) : (r.pollRead cap).Counts len input d := by
  obtain ⟨l, hl⟩ := h.fixed
  simp only [HttpBodyReader.pollRead, hl]
  rcases h.left with ⟨ht, hpos, hsum⟩ | ⟨ht, hlen⟩
  · rw [if_neg (by simp [ht])]
    rcases hp : r.stream.pollRead (min cap r.nextReadSize) with ⟨_ | ⟨e | x⟩, s⟩
    all_goals simp only [pollFixed, hp]
    · exact { h with stream := by rw [← h.stream, ← pollRead_pending hp] }
    · exact { h with stream := by rw [← h.stream, ← pollRead_error_content hp] }
    · obtain ⟨hcont, hxlen, -⟩ := pollRead_ok hp
      split
      next h0 =>
        rw [length_eq_zero_iff.mp h0] at hcont
        exact { h with stream := by rw [← h.stream, ← hcont]; rfl }
      next hne =>
        obtain ⟨ns, ls, t, he, hsum', hcase⟩ :=
          advanceFixed_eq { r with stream := s } x.length (by simp only; omega)
        simp only at hsum' hcase
        rw [he]
        refine ⟨⟨?_, h.fixed, by simp [h.size], ?_, fun hf => absurd (h.fin hf) (by simp [ht])⟩,
          fun h0 => absurd (by simp [h0]) hne⟩
        · rw [append_assoc, hcont, h.stream]
        · simp only [length_append]
          rcases hcase with ⟨hns, rfl⟩ | ⟨hz, hns, rfl⟩
          · exact .inl ⟨ht, hns, by omega⟩
          · exact .inr ⟨by simp [afterFixed, hl], by omega⟩
  · rw [if_pos ht]
    exact ⟨(append_nil d).symm ▸ { h with fixed := ⟨l, rfl⟩, fin := fun _ => ht }, fun _ => ht⟩

/-- A reader of fixed length as a copy sees it. -/
def fixedSpec (len : Nat) (input : Bytes) : ReaderSpec HttpBodyReader where
  rel d r := r.Remaining len input d
  eof r := r.nextReadType = .endOfFile
  read := by
    rintro d x r r' cap h - hp
    have hx := h.pollRead cap
    rw [show r.pollRead cap = _ from hp] at hx
    exact hx.1
  stall := by
    rintro d r r' cap h - hp
    have hx := h.pollRead cap
    rwa [show r.pollRead cap = _ from hp] at hx
  stop := by
    rintro d r r' cap h - hp
    have hx := h.pollRead cap
    rw [show r.pollRead cap = _ from hp] at hx
    exact hx.2 rfl

end

theorem tracks_newChunked (s : Source) (maxLen : Nat) : (newChunked s maxLen).Tracks start :=
  ⟨rfl, rfl, rfl, nofun, fun _ => rfl, fun _ => rfl, nofun, fun _ _ => ⟨rfl, rfl⟩, nofun,
    fun h => absurd h.1 (Nat.lt_irrefl 0)⟩

theorem newChunkedAfterPreview_eq (s : Source) (maxLen : Nat) {left : UInt64} (h : left ≠ 0) :
    (newChunkedAfterPreview s maxLen left).Tracks ⟨.data left.toNat, []⟩ ∧
    (newChunkedAfterPreview s maxLen left).stream = s ∧
    (newChunkedAfterPreview s maxLen left).bodyLineMaxLen = maxLen := by
  have hpos : 0 < left.toNat := Nat.pos_of_ne_zero fun h0 => h (UInt64.toNat_inj.mp h0)
  obtain ⟨ns, ls, he, hsum, hns⟩ := updateNextReadSize_eq
    { stream := s, bodyType := .chunked, nextReadType := .fixedLength, bodyLineMaxLen := maxLen
      leftTotalSize := left.toNat, currentChunkSize := left.toNat } rfl
  rw [newChunkedAfterPreview, he]
  refine ⟨⟨rfl, ?_, rfl, fun _ => hns hpos, by simp, fun _ => rfl, nofun, fun _ _ => ⟨rfl, rfl⟩,
    nofun, id⟩, rfl, rfl⟩
  simp only [frameSt]
  rw [hsum]

theorem remaining_newFixedLength (s : Source) {len : UInt64} (h : len ≠ 0) :
    (newFixedLength s len).Remaining len.toNat s.content [] := by
  have hpos : 0 < len.toNat := Nat.pos_of_ne_zero fun h0 => h (UInt64.toNat_inj.mp h0)
  obtain ⟨ns, ls, he, hsum, hns⟩ := updateNextReadSize_eq
    { stream := s, bodyType := .contentLength len, nextReadType := .fixedLength
      bodyLineMaxLen := 1024, leftTotalSize := len.toNat } rfl
  rw [newFixedLength, he]
  refine ⟨rfl, ⟨len, rfl⟩, rfl, .inl ⟨rfl, hns hpos, ?_⟩, nofun⟩
  simpa using hsum

end HttpBodyReader

/-! ### Whole bodies -/

section

variable [AtoiRadix16]

/-- The bytes `wire` are one whole body of a type with an end of its own, and `body` is what it
    carries. -/
def HttpBodyType.Whole (bodyType : HttpBodyType) (wire body : Bytes) : Prop :=
  match bodyType with
  | .contentLength len => wire = body ∧ body.length = len.toNat
  | .chunked => Frame.feed sizeOf Frame.start wire = ⟨.done, body⟩
  | .readUntilEnd => False

namespace HttpBodyReader

omit [AtoiRadix16] in
/-- A finished reader has read its body to the end. -/
theorem Tracks.done {f : Frame} (h : r.Tracks f) (hf : r.finished = true) :
    f = ⟨.done, f.body⟩ := by
  have hst := h.st
  rw [frameSt, h.fin hf] at hst
  exact congrArg (Frame.mk · _) hst.symm

theorem Remaining.reads {input d : Bytes} {r r' : HttpBodyReader}
    (h : r.Remaining len input []) (hr : Reads HttpBodyReader.pollRead r d r') :
    r'.Remaining len input d := by
  induction hr with
  | start => exact h
  | @read d x r₁ r₂ cap _ hp ih =>
    have hx := ih.pollRead cap
    rw [hp] at hx
    exact hx.1
  | @stall d r₁ r₂ cap _ hp ih =>
    have hx := ih.pollRead cap
    rwa [hp] at hx

/-- What a run of reads delivers until the reader is finished is one whole body, and nothing
    behind it is taken. -/
theorem whole_of_finished {s : Source} {bodyType : HttpBodyType} {maxLen : Nat} {d : Bytes}
    (hlen : bodyType ≠ .contentLength 0) (hend : bodyType ≠ .readUntilEnd)
    (hr : Reads pollRead (new s bodyType maxLen) d r) (hf : r.finished = true) :
    (∃ body, bodyType.Whole d body) ∧ d ++ r.stream.content = s.content := by
  cases bodyType with
  | readUntilEnd => exact absurd rfl hend
  | contentLength len =>
    have hrem := (remaining_newFixedLength s fun h0 => hlen (by rw [h0])).reads hr
    refine ⟨⟨d, rfl, ?_⟩, hrem.stream⟩
    rcases hrem.left with ⟨ht, -, -⟩ | ⟨-, hl⟩
    · rw [hrem.fin hf] at ht; cases ht
    · exact hl
  | chunked =>
    obtain ⟨es, rfl, hes⟩ := (tracks_newChunked s maxLen).reads hr
    exact ⟨⟨_, hes.tracks.done hf⟩, hes.content⟩

end HttpBodyReader

end

end Vey.Http
