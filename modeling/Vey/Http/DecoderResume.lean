import Vey.Http.DecoderFraming
import Vey.Schemes.Drain

/-! A decoder that is put down between two chunks, or inside one, and taken up again.

        5\r\n a b | c d e \r\n 3\r\n ...
                  ^ left_chunk_size() = 3, pending_cancel_safe()
                  resume(reader, limit, 3)

    The fresh decoder differs from the old one in the size of the chunk it believes to be in. The size
    is read at the end of a chunk only, and there only to tell the last chunk from the others. -/

namespace Vey.Http
open Schemes

namespace ChunkedDataDecodeReader

variable {d e : ChunkedDataDecodeReader}

/-! ### Decoders that cannot be told apart -/

/-- Between two chunks. -/
def Boundary (d : ChunkedDataDecodeReader) : Prop :=
  d.pollChunkEnd = false ∧ d.pollChunkEndN = false ∧ d.pollChunkEndR = false ∧ d.leftChunkSize = 0

/-- The two agree but for the size of the chunk they are in, and on whether it is the last one. -/
def SameCourse (d e : ChunkedDataDecodeReader) : Prop :=
  e = { d with thisChunkSize := e.thisChunkSize } ∧
    (d.Boundary ∨ (d.thisChunkSize = 0 ↔ e.thisChunkSize = 0))

theorem SameCourse.resume {n : UInt64} (hs : d.Sound) (hn : d.leftChunkSize = n.toNat)
    (hsafe : d.pendingCancelSafe = true) (hfin : d.finished = false) :
    d.SameCourse (resume d.reader d.bodyLineMaxSize n) := by
  simp only [pendingCancelSafe, Bool.and_eq_true, List.isEmpty_iff, Bool.not_eq_true'] at hsafe
  obtain ⟨⟨hhdr, hr⟩, hnn⟩ := hsafe
  have hover : d.pollChunkEnd = false := by
    by_contra he
    rw [Bool.not_eq_false] at he
    by_cases hz : d.thisChunkSize = 0
    · simp [finished, he, hz] at hfin
    · simpa [hr, hnn] using hs.closing he hz
  obtain ⟨reader, max, header, this, left, r, nn, over'⟩ := d
  dsimp only at hhdr hr hnn hover hn
  subst hhdr hr hnn hover hn
  refine ⟨rfl, ?_⟩
  rcases Nat.eq_zero_or_pos n.toNat with hz | hpos
  · exact .inl ⟨rfl, rfl, rfl, hz⟩
  · exact .inr ⟨fun h => absurd h (hs.live hpos).1, fun h => absurd h (Nat.ne_of_gt hpos)⟩

theorem SameCourse.finished (h : d.SameCourse e) : d.finished = e.finished := by
  obtain ⟨he, hbound | hiff⟩ := h
  · rw [he, ChunkedDataDecodeReader.finished, ChunkedDataDecodeReader.finished, hbound.1]
    rfl
  · rw [he, ChunkedDataDecodeReader.finished, ChunkedDataDecodeReader.finished]
    congr 1
    rw [Bool.eq_iff_iff, beq_iff_eq, beq_iff_eq]
    exact hiff

/-- The same answer, and decoders on the same course. -/
def SameAnswer {α : Type} (a b : α × ChunkedDataDecodeReader) : Prop := a.1 = b.1 ∧ a.2.SameCourse b.2

/-- The same decoder with another size of its chunk. -/
abbrev ofSize (d : ChunkedDataDecodeReader) (n : Nat) : ChunkedDataDecodeReader :=
  { d with thisChunkSize := n }

variable {n : Nat}

theorem withBuf_same {closed : String}
    {k : ChunkedDataDecodeReader → Bytes → Except IoError Unit × ChunkedDataDecodeReader}
    (hkeep : ∀ s, ({ d with reader := s } : ChunkedDataDecodeReader).SameCourse
      { d.ofSize n with reader := s })
    (hk : ∀ s buf, SameAnswer (k { d with reader := s } buf) (k { d.ofSize n with reader := s } buf)) :
    SameAnswer (d.withBuf closed k) ((d.ofSize n).withBuf closed k) := by
  unfold withBuf
  dsimp only
  split
  · exact ⟨rfl, hkeep _⟩
  · exact ⟨rfl, hkeep _⟩
  next buf s _ =>
    split
    · exact ⟨rfl, hkeep s⟩
    · exact ⟨congrArg Poll.ready (hk s buf).1, (hk s buf).2⟩

theorem chunkEndN_same (hiff : d.thisChunkSize = 0 ↔ n = 0) (s : Source) (buf : Bytes) :
    SameAnswer (chunkEndN { d with reader := s } buf)
      (chunkEndN { d.ofSize n with reader := s } buf) := by
  unfold chunkEndN
  split <;> exact ⟨rfl, rfl, .inr hiff⟩

theorem chunkEndR_same (hiff : d.thisChunkSize = 0 ↔ n = 0) (s : Source) (buf : Bytes) :
    SameAnswer (chunkEndR { d with reader := s } buf)
      (chunkEndR { d.ofSize n with reader := s } buf) := by
  unfold chunkEndR
  split
  · split
    · exact ⟨rfl, rfl, .inr hiff⟩
    · split <;> exact ⟨rfl, rfl, .inr hiff⟩
  · split <;> exact ⟨rfl, rfl, .inr hiff⟩

section

variable [AtoiRadix16]

omit [AtoiRadix16] in
theorem pollPayload_same (hiff : d.thisChunkSize = 0 ↔ n = 0) (room : Nat) :
    SameAnswer (d.pollPayload room) ((d.ofSize n).pollPayload room) := by
  unfold pollPayload
  dsimp only
  split
  · exact ⟨rfl, rfl, .inr hiff⟩
  · exact ⟨rfl, rfl, .inr hiff⟩
  · split <;> exact ⟨rfl, rfl, .inr hiff⟩

/-- A size line sets the size, so behind it the two are one. -/
theorem chunkHeaderIn_same (hbound : d.Boundary) (s : Source) (buf : Bytes) :
    SameAnswer (chunkHeaderIn { d with reader := s } buf)
      (chunkHeaderIn { d.ofSize n with reader := s } buf) := by
  unfold chunkHeaderIn
  dsimp only
  split
  · split
    · exact ⟨rfl, rfl, .inl hbound⟩
    · unfold startChunk
      dsimp only [consume]
      split
      · exact ⟨rfl, rfl, .inl hbound⟩
      · split <;> exact ⟨rfl, rfl, .inr Iff.rfl⟩
  · split <;> exact ⟨rfl, rfl, .inl hbound⟩

/-- Two polls in flight. -/
def Decoding.Same (s t : Decoding) : Prop := s.filled = t.filled ∧ s.decoder.SameCourse t.decoder

omit [AtoiRadix16] in
theorem framing_same {filled : Bytes} {a b : IoPoll Unit × ChunkedDataDecodeReader}
    (h : SameAnswer a b) :
    Ctrl.Alike Decoding.Same (Decoding.framing filled a) (Decoding.framing filled b) := by
  obtain ⟨a, d⟩ := a
  obtain ⟨b, e⟩ := b
  obtain ⟨rfl, hsame⟩ := h
  rcases a with _ | e' | u
  · exact ⟨rfl, rfl, hsame⟩
  · exact ⟨rfl, rfl, hsame⟩
  · exact ⟨rfl, hsame⟩

theorem decodeStep_same {cap : Nat} {s t : Decoding} (h : s.Same t) :
    Ctrl.Alike Decoding.Same (decodeStep cap s) (decodeStep cap t) := by
  obtain ⟨d, filled⟩ := s
  obtain ⟨e, filled'⟩ := t
  obtain ⟨rfl, hd, hsize⟩ := h
  generalize e.thisChunkSize = n at hd hsize
  subst hd
  dsimp only at hsize
  -- away from a boundary the two sizes agree on being 0
  have hiff : ¬d.Boundary → (d.thisChunkSize = 0 ↔ n = 0) := hsize.resolve_left
  unfold decodeStep
  dsimp only
  split
  case isTrue hover =>
    have hz := hiff fun hb => by rw [hb.1] at hover; cases hover
    by_cases h0 : d.thisChunkSize = 0
    · rw [if_pos h0, if_pos (hz.mp h0)]
      exact ⟨rfl, rfl, rfl, .inr hz⟩
    · rw [if_neg h0, if_neg (mt hz.mpr h0)]
      exact ⟨rfl, rfl, .inr hz⟩
  case isFalse hover =>
    split
    case isTrue hn =>
      have hz := hiff fun hb => by rw [hb.2.1] at hn; cases hn
      exact framing_same (withBuf_same (fun s => ⟨rfl, .inr hz⟩) (chunkEndN_same hz))
    case isFalse hn =>
      split
      case isTrue hr =>
        have hz := hiff fun hb => by rw [hb.2.2.1] at hr; cases hr
        exact framing_same (withBuf_same (fun s => ⟨rfl, .inr hz⟩) (chunkEndR_same hz))
      case isFalse hr =>
        split
        case isTrue hl =>
          have hz := hiff fun hb => by have := hb.2.2.2; omega
          split
          · exact ⟨rfl, rfl, rfl, .inr hz⟩
          · have hpay := pollPayload_same hz (cap - filled.length)
            generalize d.pollPayload (cap - filled.length) = a at hpay ⊢
            generalize (d.ofSize n).pollPayload (cap - filled.length) = b at hpay ⊢
            obtain ⟨a, d'⟩ := a
            obtain ⟨b, e'⟩ := b
            obtain ⟨rfl, hsame⟩ := hpay
            rcases a with _ | e' | x
            · exact ⟨rfl, rfl, hsame⟩
            · exact ⟨rfl, rfl, hsame⟩
            · exact ⟨rfl, hsame⟩
        case isFalse hl =>
          rw [Bool.not_eq_true] at hover hn hr
          have hb : d.Boundary := ⟨hover, hn, hr, by omega⟩
          exact framing_same (withBuf_same (fun s => ⟨rfl, .inl hb⟩) (chunkHeaderIn_same hb))

theorem pollRead_same (cap : Nat) (h : d.SameCourse e) :
    SameAnswer (d.pollRead cap) (e.pollRead cap) := by
  have hstart : Decoding.Same ⟨d, []⟩ ⟨e, []⟩ := ⟨rfl, h⟩
  have hbudget : e.budget = d.budget := by
    rw [h.1]
    rfl
  have hround : ∀ {s t : Decoding}, s.Same t →
      Ctrl.Alike Decoding.Same (decodeStep cap s) (decodeStep cap t) := decodeStep_same
  have hdecode := iter_getD_alike (a := .pending) hround hstart (d.budget + 1) hstart
  unfold pollRead pollDecode
  rw [hbudget]
  generalize (iter (decodeStep cap) (d.budget + 1) ⟨d, []⟩).getD (.pending, ⟨d, []⟩) = a at hdecode ⊢
  generalize (iter (decodeStep cap) (d.budget + 1) ⟨e, []⟩).getD (.pending, ⟨e, []⟩) = b at hdecode ⊢
  obtain ⟨a, s⟩ := a
  obtain ⟨b, t⟩ := b
  obtain ⟨rfl, hfilled, hsame⟩ := hdecode
  rcases a with _ | e' | u
  · exact ⟨by dsimp only at hfilled ⊢; rw [hfilled], hsame⟩
  · exact ⟨rfl, hsame⟩
  · exact ⟨by dsimp only at hfilled ⊢; rw [hfilled], hsame⟩

end

/-! ### The end of a chunk -/

theorem finishChunkEndStep_clears [AtoiRadix16] (h : d.InChunkEnd) :
    (finishChunkEndStep d).Ensures InChunkEnd
      fun _ d' => d'.leftSize = some 0 ∧ d'.pendingCancelSafe = true := by
  refine (finishChunkEndStep_ensures (fun _ => true) h.1.tracks h.2).mono ?_ ?_
  · rintro d' ⟨hend, es, htook⟩
    exact ⟨htook.tracks.toSound, hend⟩
  · rintro _ d' ⟨⟨hleft, -, hhdr⟩, -⟩
    refine ⟨hleft, ?_⟩
    unfold leftSize at hleft
    split at hleft
    case isTrue => cases hleft
    case isFalse hend =>
      rw [Bool.not_eq_true, Bool.or_eq_false_iff] at hend
      simp [pendingCancelSafe, hhdr, hend]

/-! ### Suspend and resume -/

section

variable [AtoiRadix16]

/-- The decoders that a caller can have in hand: it reads with buffers of any sizes, and may finish a
    chunk end or drop the attempt after any of its polls. -/
inductive Reached : ChunkedDataDecodeReader → Prop where
  | new (s : Source) (max : Nat) : Reached (new s max)
  | resume (s : Source) (max : Nat) (n : UInt64) : Reached (resume s max n)
  | read {d : ChunkedDataDecodeReader} (cap : Nat) : Reached d → Reached (d.pollRead cap).2
  | finish {d e d' : ChunkedDataDecodeReader} {a : IoPoll Unit} : Reached d →
      finishPendingChunkEnd.Visits d e → finishChunkEndStep e = .ret a d' → Reached d'

theorem Reached.sound (h : d.Reached) : d.Sound := by
  induction h with
  | new s max => exact sound_new s max
  | resume s max n => exact sound_resume s max n
  | read cap _ ih => exact pollRead_sound ih cap
  | finish _ hv hret ih =>
    have hstep : ∀ {d d' : ChunkedDataDecodeReader} {c : Ctrl _ _}, d.Sound →
        finishChunkEndStep d = c → c.state = d' → d'.Sound := by
      rintro d d' c hd rfl rfl
      exact finishChunkEndStep_sound hd
    have he := hv.inv Sound ih (fun hd hb => hstep hd hb rfl) fun hd hb => hstep hd hb rfl
    exact hstep he hret rfl

/-- A decoder that says it is safe to leave can be left: a fresh one that is told how much of the chunk
    is left reads the rest alike. And one that is inside a chunk end is safe to leave once the chunk end
    is finished. -/
theorem decoder_resumes {d : ChunkedDataDecodeReader} (h : d.Reached) :
    (d.finished = false → d.pendingCancelSafe = true → ∃ n : UInt64, d.leftSize = some n.toNat ∧
      ∀ caps : List Nat,
        let old := drain pollRead ChunkedDataDecodeReader.finished caps d
        let fresh := drain pollRead ChunkedDataDecodeReader.finished caps
          (resume d.reader d.bodyLineMaxSize n)
        fresh.1 = old.1 ∧ fresh.2.2 = old.2.2 ∧ fresh.2.1.reader = old.2.1.reader) ∧
    (d.leftSize = none → ∀ d', finishPendingChunkEnd.Completes d (.ok ()) d' →
      d'.leftSize = some 0 ∧ d'.pendingCancelSafe = true) := by
  have hs := h.sound
  constructor
  · intro hfin hsafe
    have hn : d.leftChunkSize = (UInt64.ofNat d.leftChunkSize).toNat :=
      (UInt64.toNat_ofNat_of_lt' hs.small).symm
    have hflags : d.endsChunk = false := by
      simp only [pendingCancelSafe, Bool.and_eq_true, Bool.not_eq_true'] at hsafe
      rw [endsChunk, hsafe.1.2, hsafe.2]
      rfl
    refine ⟨UInt64.ofNat d.leftChunkSize, ?_, fun caps => ?_⟩
    · rw [leftSize, ← endsChunk, hflags, ← hn]
      rfl
    · obtain ⟨hbytes, hsame, hending⟩ := drain_of_rel (R := SameCourse) SameCourse.finished
        (fun cap => pollRead_same cap) caps (SameCourse.resume hs hn hsafe hfin)
      refine ⟨hbytes.symm, hending.symm, ?_⟩
      rw [hsame.1]
  · intro hnone d' hdone
    have hflags : d.endsChunk = true := by
      by_contra hoff
      rw [leftSize, if_neg hoff] at hnone
      cases hnone
    exact hdone.ensures (I := InChunkEnd) id finishChunkEndStep_clears ⟨hs, hflags⟩

end

/-- Two chunks, of which the second one has not arrived yet. -/
def twoChunks : Source :=
  ⟨[53, 13, 10, 97, 98, 99, 100, 101, 13], [.stall, .slice 10 [49, 13, 10, 102, 13, 10, 48, 13, 10]],
    by decide⟩

/-- Left inside its first chunk, and inside the end of it. -/
theorem decoder_resumes_inChunk :
    let inChunk := ((new twoChunks 64).pollRead 2).2
    let inEnd := (inChunk.pollRead 8).2
    (inChunk.leftSize = some 3 ∧
      (drain pollRead ChunkedDataDecodeReader.finished [8, 8] (resume inChunk.reader 64 3)).1 =
        (drain pollRead ChunkedDataDecodeReader.finished [8, 8] inChunk).1) ∧
    inEnd.leftSize = none ∧ ∃ d', finishPendingChunkEnd.Completes inEnd (.ok ()) d' ∧
      d'.leftSize = some 0 ∧ d'.pendingCancelSafe = true := by
  have hin : Reached ((new twoChunks 64).pollRead 2).2 := (Reached.new twoChunks 64).read 2
  have hend := hin.read 8
  constructor
  · obtain ⟨n, hn, hsame⟩ := (decoder_resumes hin).1 (by decide +kernel) (by decide +kernel)
    have hleft : ((new twoChunks 64).pollRead 2).2.leftSize = some 3 := by decide +kernel
    have hmax : ((new twoChunks 64).pollRead 2).2.bodyLineMaxSize = 64 := by decide +kernel
    obtain rfl : n = 3 := UInt64.toNat_inj.mp (Option.some.inj (hn.symm.trans hleft))
    have hbytes := (hsame [8, 8]).1
    rw [hmax] at hbytes
    exact ⟨hleft, hbytes⟩
  · have hnone : (((new twoChunks 64).pollRead 2).2.pollRead 8).2.leftSize = none := by decide +kernel
    have hany : (finishPendingChunkEnd.drive 9
        (((new twoChunks 64).pollRead 2).2.pollRead 8).2).any
          (fun x => decide (x.1 = .ok ())) = true := by
      decide +kernel
    obtain ⟨⟨a, d'⟩, hdrive, hok⟩ := (Option.any_eq_true _ _).mp hany
    obtain rfl : a = .ok () := of_decide_eq_true hok
    have hdone := Future.drive_completes .start hdrive
    exact ⟨hnone, d', hdone, (decoder_resumes hend).2 hnone d' hdone⟩

end ChunkedDataDecodeReader

end Vey.Http
