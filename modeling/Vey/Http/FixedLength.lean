import Vey.Http.BodyDecoder
import Vey.Http.BodyOwn
import Vey.Schemes.Exact

/-! Bodies of fixed length, for the two readers of a body.

        n > 0   FixedLength --n bytes--> EndOfFile --> finished
        n = 0   FixedLength --a read of 0 bytes--> "closed"

    Both readers ask the stream for at most the bytes that are left, and take an empty answer for a
    stream that was closed. A body without bytes is met with a read of no bytes. -/

namespace Vey.Http
open Schemes List HttpBodyReader

section

variable [AtoiRadix16]

/-! ### `HttpBodyReader` -/

namespace HttpBodyReader

variable {len cap : Nat} {input d : Bytes} {r : HttpBodyReader}

omit [AtoiRadix16] in
theorem Remaining.le (h : r.Remaining len input d) : d.length ≤ len := by
  rcases h.left with ⟨-, -, hsum⟩ | ⟨-, hlen⟩ <;> omega

/-- Bytes that are missing are read from the stream. -/
theorem Remaining.pollRead_fixed (h : r.Remaining len input d) (hlt : d.length < len) (cap : Nat) :
    r.pollRead cap = r.pollFixed cap ∧ 0 < r.nextReadSize ∧ r.nextReadSize ≤ len - d.length := by
  obtain ⟨l, hl⟩ := h.fixed
  rcases h.left with ⟨ht, hpos, hsum⟩ | ⟨-, hlen⟩
  · refine ⟨?_, hpos, by omega⟩
    rw [HttpBodyReader.pollRead, hl]
    exact if_neg (by rw [ht]; simp)
  · omega

/-- The reader between its first poll and the end of the body. -/
def Held (len : Nat) (input d : Bytes) (r : HttpBodyReader) : Prop :=
  r.Remaining len input d ∧ r.stream.Holds (len - d.length)

theorem Held.brings (h : r.Held len input d) (hlt : d.length < len) (hcap : 0 < cap) :
    Brings pollRead stream (Held len input) d r cap := by
  obtain ⟨hfixed, hk, hle⟩ := h.1.pollRead_fixed hlt cap
  rw [pollFixed] at hfixed
  rcases h.2.pollRead (by omega) (Nat.lt_min.mpr ⟨hcap, hk⟩) with
    ⟨s, hp, hev, hheld⟩ | ⟨x, s, hp, hx, hxle, hev, hheld⟩
  · have hrem := h.1.pollRead cap
    rw [hp] at hfixed
    rw [hfixed] at hrem
    exact .inl ⟨_, hfixed, ⟨hrem, hheld⟩, hev⟩
  · have hpos := length_pos_iff.mpr hx
    rw [hp] at hfixed
    dsimp only at hfixed
    rw [if_neg hpos.ne'] at hfixed
    obtain ⟨ns, ls, t, he, -⟩ := advanceFixed_eq { r with stream := s } x.length (by simp only; omega)
    have hrem := h.1.pollRead cap
    rw [hfixed] at hrem
    rw [he] at hfixed hrem
    refine .inr ⟨x, _, hfixed, hx, ⟨hrem.1, ?_⟩, hev⟩
    rw [length_append, ← Nat.sub_sub]
    exact hheld (by omega)

theorem Held.ends (h : r.Held len input d) (hlen : d.length = len) :
    Ends pollRead stream finished (Held len input) d r cap := by
  obtain ⟨l, hl⟩ := h.1.fixed
  have ht : r.nextReadType = .endOfFile := by
    rcases h.1.left with ⟨-, hpos, hsum⟩ | ⟨ht, -⟩
    · omega
    · exact ht
  refine ⟨{ r with finished := true }, ?_,
    ⟨⟨h.1.stream, h.1.fixed, h.1.size, h.1.left, fun _ => ht⟩, h.2⟩,
    rfl, rfl⟩
  rw [HttpBodyReader.pollRead, hl]
  exact if_pos ht

theorem readsExactly_new {n : UInt64} (hn : n ≠ 0) {s : Source} (hs : s.Holds n.toNat)
    (maxLen : Nat) : ReadsExactly pollRead stream finished n.toNat s
      (new s (.contentLength n) maxLen) := by
  have hrem : (new s (.contentLength n) maxLen).Remaining n.toNat s.content [] :=
    remaining_newFixedLength s hn
  have hstream : (new s (.contentLength n) maxLen).stream = s := updateNextReadSize_stream _
  refine readsExactly_of_inv (I := Held n.toNat s.content) ⟨hrem, ?_⟩ hstream hs.le_content
    (fun h => h.1.le) (fun h => ⟨h.1.stream, fun hf => ?_⟩) Held.brings fun h hlen _ => h.ends hlen
  · rw [hstream]
    exact hs
  · rcases h.1.left with ⟨ht, -, -⟩ | ⟨-, hlen⟩
    · cases ht.symm.trans (h.1.fin hf)
    · exact hlen

/-- A body without bytes: the first poll reads nothing and does not get to the end. -/
theorem not_readsExactly_zero (s : Source) (maxLen : Nat) :
    ¬ReadsExactly pollRead stream finished 0 s (new s (.contentLength 0) maxLen) := by
  intro h
  obtain ⟨r', hp, -, -⟩ := h.ends [] nofun [] _ rfl rfl 1 Nat.one_pos
  have hfixed : (new s (.contentLength 0) maxLen).pollRead 1 =
      (new s (.contentLength 0) maxLen).pollFixed 1 := rfl
  rw [hfixed, pollFixed] at hp
  split at hp
  · cases hp
  · cases hp
  next x t hx =>
    have hempty : x.length = 0 := Nat.le_zero.mp (Source.pollRead_ok hx).2.1
    rw [if_pos hempty] at hp
    cases hp

end HttpBodyReader

/-! ### `HttpBodyDecodeReader` -/

namespace HttpBodyDecodeReader

def new (stream : Source) (bodyType : HttpBodyType) (bodyLineMaxSize : Nat) : HttpBodyDecodeReader :=
  match bodyType with
  | .readUntilEnd => newReadUntilEnd stream
  | .contentLength size => newFixedLength stream size
  | .chunked => newChunked stream bodyLineMaxSize

/-- The stream inside, as long as the reader has it. -/
def stream (r : HttpBodyDecodeReader) : Source :=
  match r.decodeState with
  | some (.readUntilEnd s) => s
  | some (.readFixedLength s _) => s
  | some (.chunked d) => d.reader
  | none => ⟨[], [], nil_fits⟩

/-- A reader of `len` bytes that has delivered `d` off `input`. -/
structure Held (len : Nat) (input d : Bytes) (r : HttpBodyDecodeReader) : Prop where
  state : r.decodeState = some (.readFixedLength r.stream len)
  input : d ++ r.stream.content = input
  size : r.totalRead = d.length
  le : d.length ≤ len
  more : r.stream.Holds (len - d.length)
  done : r.readDataDone = decide (d.length = len)
  fin : r.finished = decide (d.length = len)

variable {len cap : Nat} {input d : Bytes} {r : HttpBodyDecodeReader}

/-- Bytes that are missing are read from the stream. -/
theorem Held.pollRead_fixed (h : r.Held len input d) (hlt : d.length < len) (hcap : 0 < cap) :
    r.pollRead cap = match r.stream.pollRead (min (len - d.length) cap) with
      | (.pending, s) => (.pending, { r with decodeState := some (.readFixedLength s len) })
      | (.ready (.error e), s) =>
        (.ready (.error e), { r with decodeState := some (.readFixedLength s len) })
      | (.ready (.ok x), s) =>
        if x.length = 0 then
          (.ready (.error ⟨.unexpectedEof, s!"EOF after read {d.length} of {len} body"⟩),
            { r with decodeState := some (.readFixedLength s len) })
        else
          let r := { r with
            decodeState := some (.readFixedLength s len), totalRead := d.length + x.length }
          (.ready (.ok x),
            if r.totalRead = len then { r with readDataDone := true, finished := true } else r) := by
  have hdone : ¬r.readDataDone = true := by
    rw [h.done, decide_eq_true_iff]
    exact hlt.ne
  rw [pollRead, if_neg hdone, if_neg hcap.ne', h.state]
  exact h.size ▸ rfl

theorem Held.brings (h : r.Held len input d) (hlt : d.length < len) (hcap : 0 < cap) :
    Brings pollRead stream (Held len input) d r cap := by
  have hread := h.pollRead_fixed hlt hcap
  rcases h.more.pollRead (show 0 < len - d.length by omega)
    (show 0 < min (len - d.length) cap by omega) with
    ⟨s, hp, hev, hheld⟩ | ⟨x, s, hp, hx, hxle, hev, hheld⟩
  · rw [hp] at hread
    refine .inl ⟨_, hread, ⟨rfl, ?_, h.size, h.le, hheld, h.done, h.fin⟩, hev⟩
    exact (congrArg (d ++ ·) (Source.pollRead_pending hp)).trans h.input
  · have hpos := length_pos_iff.mpr hx
    have hlen : (d ++ x).length = d.length + x.length := length_append
    rw [hp] at hread
    dsimp only at hread
    rw [if_neg hpos.ne'] at hread
    refine .inr ⟨x, _, hread, hx, ?_⟩
    have hcont : (d ++ x) ++ s.content = input := by
      rw [append_assoc, (Source.pollRead_ok hp).1, h.input]
    have hmore : s.Holds (len - (d ++ x).length) := by
      rw [hlen, ← Nat.sub_sub]
      exact hheld (by omega)
    split
    next hall =>
      have htrue : true = decide ((d ++ x).length = len) := (decide_eq_true (hlen.trans hall)).symm
      exact ⟨⟨rfl, hcont, hlen.symm, by omega, hmore, htrue, htrue⟩, hev⟩
    next hmissing =>
      have hfalse : decide (d.length = len) = decide ((d ++ x).length = len) := by
        rw [decide_eq_false hlt.ne, decide_eq_false (by rw [hlen]; exact hmissing)]
      exact ⟨⟨rfl, hcont, hlen.symm, by omega, hmore, h.done.trans hfalse, h.fin.trans hfalse⟩, hev⟩

theorem Held.ends (h : r.Held len input d) (hlen : d.length = len) :
    Ends pollRead stream HttpBodyDecodeReader.finished (Held len input) d r cap := by
  have hdone : r.readDataDone = true := h.done.trans (decide_eq_true hlen)
  exact ⟨r, by rw [pollRead, if_pos hdone], h, rfl, h.fin.trans (decide_eq_true hlen)⟩

theorem readsExactly_new {n : UInt64} (hn : n ≠ 0) {s : Source} (hs : s.Holds n.toNat)
    (maxLen : Nat) : ReadsExactly pollRead stream HttpBodyDecodeReader.finished n.toNat s
      (new s (.contentLength n) maxLen) := by
  have hpos : ¬(0 = n.toNat) := fun h0 => hn (UInt64.toNat_inj.mp h0.symm)
  have hfalse : false = decide (([] : Bytes).length = n.toNat) := (decide_eq_false hpos).symm
  refine readsExactly_of_inv (I := Held n.toNat s.content) ?_ rfl hs.le_content
    (fun h => h.le) (fun h => ⟨h.input, fun hf => ?_⟩) Held.brings fun h hlen _ => h.ends hlen
  · exact ⟨rfl, rfl, rfl, Nat.zero_le _, hs, hfalse, hfalse⟩
  · exact of_decide_eq_true (h.fin.symm.trans hf)

theorem not_readsExactly_zero (s : Source) (maxLen : Nat) :
    ¬ReadsExactly pollRead stream HttpBodyDecodeReader.finished 0 s
      (new s (.contentLength 0) maxLen) := by
  intro h
  obtain ⟨r', hp, -, -⟩ := h.ends [] nofun [] _ rfl rfl 1 Nat.one_pos
  have hfixed : (new s (.contentLength 0) maxLen).pollRead 1 =
      match s.pollRead 0 with
      | (.pending, s) => (.pending, withState (.readFixedLength s 0))
      | (.ready (.error e), s) => (.ready (.error e), withState (.readFixedLength s 0))
      | (.ready (.ok x), s) =>
        if x.length = 0 then
          (.ready (.error ⟨.unexpectedEof, s!"EOF after read {0} of {0} body"⟩),
            withState (.readFixedLength s 0))
        else (.ready (.ok x),
          if 0 + x.length = 0 then
            ⟨true, true, 0 + x.length, some (.readFixedLength s 0)⟩
          else ⟨false, false, 0 + x.length, some (.readFixedLength s 0)⟩) := rfl
  rw [hfixed] at hp
  split at hp
  · cases hp
  · cases hp
  next x t hx =>
    have hempty : x.length = 0 := Nat.le_zero.mp (Source.pollRead_ok hx).2.1
    rw [if_pos hempty] at hp
    cases hp

end HttpBodyDecodeReader

/-! ### Both readers -/

/-- A body of `n` bytes is read exactly, by both readers and off every stream that has them, unless it
    has no bytes. -/
theorem fixedLength_exact_iff (n : UInt64) (s : Source) (hs : s.Holds n.toNat) (maxLen : Nat) :
    (ReadsExactly HttpBodyReader.pollRead HttpBodyReader.stream HttpBodyReader.finished n.toNat s
      (.new s (.contentLength n) maxLen) ↔ n ≠ 0) ∧
    (ReadsExactly HttpBodyDecodeReader.pollRead HttpBodyDecodeReader.stream
      HttpBodyDecodeReader.finished n.toNat s (.new s (.contentLength n) maxLen) ↔ n ≠ 0) := by
  refine ⟨⟨fun h hn => ?_, fun hn => readsExactly_new hn hs maxLen⟩,
    ⟨fun h hn => ?_, fun hn => HttpBodyDecodeReader.readsExactly_new hn hs maxLen⟩⟩
  · subst hn
    exact not_readsExactly_zero s maxLen h
  · subst hn
    exact HttpBodyDecodeReader.not_readsExactly_zero s maxLen h

end

/-- Three bytes of a body in two slices, and a byte behind them. -/
def threeAndMore : Source := ⟨[104], [.stall, .slice 105 [106, 107]], by decide⟩

theorem fixedLength_exact_three :
    threeAndMore.Holds 3 ∧
    ReadsExactly HttpBodyReader.pollRead HttpBodyReader.stream HttpBodyReader.finished 3 threeAndMore
      (.new threeAndMore (.contentLength 3) 1024) ∧
    ReadsExactly HttpBodyDecodeReader.pollRead HttpBodyDecodeReader.stream
      HttpBodyDecodeReader.finished 3 threeAndMore (.new threeAndMore (.contentLength 3) 1024) := by
  have hs : threeAndMore.Holds 3 :=
    ⟨[.byte 104, .stall, .byte 105, .byte 106], [.byte 107], rfl, rfl, by simp⟩
  have h := fixedLength_exact_iff 3 threeAndMore hs 1024
  exact ⟨hs, h.1.mpr (by decide), h.2.mpr (by decide)⟩

/-- A body without bytes in front of other data fails in both readers, and where no data is there yet
    the first read waits for some. -/
theorem not_fixedLength_exact_zero :
    (HttpBodyReader.pollRead (.new threeAndMore (.contentLength 0) 1024) 8).1 =
      .ready (.error ⟨.unexpectedEof, "reader closed while reading fixed length body"⟩) ∧
    (HttpBodyDecodeReader.pollRead (.new threeAndMore (.contentLength 0) 1024) 8).1 =
      .ready (.error ⟨.unexpectedEof, "EOF after read 0 of 0 body"⟩) ∧
    (HttpBodyReader.pollRead (.new ⟨[], [.stall], by decide⟩ (.contentLength 0) 1024) 8).1 = .pending ∧
    (HttpBodyDecodeReader.pollRead
      (.new ⟨[], [.stall], by decide⟩ (.contentLength 0) 1024) 8).1 = .pending := by
  refine ⟨rfl, ?_, rfl, rfl⟩
  decide +kernel

end Vey.Http
