import Vey.Http.BodyFraming

/-! A body reader takes no byte off the stream that is not its own.

        stream   [ body ............. ] [ next request ...
        reader     taken ....|
                             any answer: bytes, a stall, an error

    The own bytes of a stream are defined for every stream: those of a complete body, all of them
    where the stream stops inside the body, and up to the offending byte where the framing is
    broken. A poll may fail with bytes taken that it did not hand over, so the statement is about
    what is left of the stream, whatever the answer is. -/

namespace Vey.Http
open Schemes List Frame

/-! ### The own bytes of a stream -/

section

variable [AtoiRadix16]

/-- The bytes at the front of `input` that belong to a body of this type. -/
def HttpBodyType.own (bodyType : HttpBodyType) (input : Bytes) : Bytes :=
  match bodyType with
  | .contentLength len => input.take len.toNat
  | .chunked => Frame.own sizeOf Frame.start input
  | .readUntilEnd => input

namespace HttpBodyReader

/-- A reader of a body with an end of its own, at the front of `input`, that has delivered `d`. -/
def Reading (bodyType : HttpBodyType) (input d : Bytes) (r : HttpBodyReader) : Prop :=
  match bodyType with
  | .contentLength len => r.Remaining len.toNat input d
  | .chunked => r.Tracks (Frame.feed sizeOf Frame.start d) ∧ d ++ r.stream.content = input ∧
      Frame.Live sizeOf Frame.start d
  | .readUntilEnd => False

theorem Reading.start {bodyType : HttpBodyType} (s : Source) (maxLen : Nat)
    (hlen : bodyType ≠ .contentLength 0) (hend : bodyType ≠ .readUntilEnd) :
    Reading bodyType s.content [] (new s bodyType maxLen) := by
  cases bodyType with
  | readUntilEnd => exact absurd rfl hend
  | contentLength len => exact remaining_newFixedLength s fun h0 => hlen (by rw [h0])
  | chunked => exact ⟨tracks_newChunked s maxLen, rfl, trivial⟩

section

variable {bodyType : HttpBodyType} {input d x : Bytes} {r r' : HttpBodyReader} {cap : Nat}

section
variable (h : Reading bodyType input d r)
include h

theorem Reading.stream : d ++ r.stream.content = input := by
  cases bodyType with
  | readUntilEnd => exact h.elim
  | contentLength len => exact Remaining.stream h
  | chunked => exact h.2.1

/-- What was delivered is a part of the body. -/
theorem Reading.own : d <+: bodyType.own input := by
  have hin := h.stream
  cases bodyType with
  | readUntilEnd => exact h.elim
  | contentLength len =>
    have hle : d.length ≤ len.toNat := by
      rcases Remaining.left h with ⟨-, -, hsum⟩ | ⟨-, hlen⟩ <;> omega
    exact prefix_take_iff.mpr ⟨⟨_, hin⟩, hle⟩
  | chunked =>
    rw [HttpBodyType.own, ← hin, own_append h.2.2]
    exact prefix_append _ _

theorem Reading.read
    (hp : r.pollRead cap = (.ready (.ok x), r')) : Reading bodyType input (d ++ x) r' := by
  cases bodyType with
  | readUntilEnd => exact h.elim
  | contentLength len =>
    have hx := Remaining.pollRead h cap
    rw [hp] at hx
    exact hx.1
  | chunked =>
    obtain ⟨htr, hin, hlive⟩ := h
    obtain ⟨es, rfl, hes, -⟩ := htr.read hp
    refine ⟨by rw [feed_append]; exact hes.tracks, by rw [append_assoc, hes.content, hin], ?_⟩
    exact live_append.mpr ⟨hlive, hes.gets.live⟩

theorem Reading.stall (hp : r.pollRead cap = (.pending, r')) :
    Reading bodyType input d r' := by
  cases bodyType with
  | readUntilEnd => exact h.elim
  | contentLength len =>
    have hx := Remaining.pollRead h cap
    rwa [hp] at hx
  | chunked =>
    have hes := h.1.stall hp
    exact ⟨hes.tracks, by rw [← h.2.1, ← hes.content]; rfl, h.2.2⟩

/-- A poll that fails leaves the bytes behind the body in the stream, too. -/
theorem Reading.fail {e : IoError}
    (hp : r.pollRead cap = (.ready (.error e), r')) :
    ∃ t, t ++ r'.stream.content = input ∧ t <+: bodyType.own input := by
  cases bodyType with
  | readUntilEnd => exact h.elim
  | contentLength len =>
    have hx := Remaining.pollRead h cap
    rw [hp] at hx
    exact ⟨d, Remaining.stream hx, h.own⟩
  | chunked =>
    obtain ⟨htr, hin, hlive⟩ := h
    obtain ⟨⟨t, ht, hlive'⟩, -⟩ := htr.fail hp
    have hall : (d ++ t) ++ r'.stream.content = input := by rw [append_assoc, ht, hin]
    refine ⟨d ++ t, hall, ?_⟩
    rw [HttpBodyType.own, ← hall, own_append (live_append.mpr ⟨hlive, hlive'⟩)]
    exact prefix_append _ _

end

end

/-- The reader of a body as a copy sees it that starts when `before` was delivered. -/
def bodySpec (bodyType : HttpBodyType) (input before : Bytes) : ReaderSpec HttpBodyReader where
  rel d r := Reading bodyType input (before ++ d) r
  eof _ := True
  read := fun h _ hp => by rw [← List.append_assoc]; exact h.read hp
  stall := fun h _ hp => h.stall hp
  stop := fun _ _ _ => trivial

end HttpBodyReader

end

end Vey.Http
