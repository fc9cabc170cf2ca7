import Vey.Http.BodyOwn
import Vey.Schemes.Drain

/-! A chunked body does not depend on the segments it arrives in.

        stream    5\r | \nab | cde\r\n0\r\n\r | \n
        buffers   1 1 3 1 2 ...

    How a reading ends is the verdict on the bytes of the stream. -/

namespace Vey.Http
open Schemes List HttpBodyReader

namespace HttpBodyReader

section

variable [AtoiRadix16] {max : Nat}

/-! ### Reading to the end -/

/-- What a reading with `n` buffers came to: `res` is what it handed over, the reader, and how it
    ended. -/
structure Outcome (max : Nat) (f : Frame) (r : HttpBodyReader) (n : Nat)
    (res : Bytes × HttpBodyReader × Ending) : Prop where
  delivered : ∃ t, res.1 ++ t ++ res.2.1.stream.content = r.stream.content ∧
    ((∀ e, res.2.2 ≠ .failed e) → t = [])
  finished : res.2.2 = .finished → Frame.verdict sizeOf max f r.stream.content =
    .finished res.2.1.stream.content res.2.1.bodySize
  failed : ∀ e, res.2.2 = .failed e →
    Frame.verdict sizeOf max f r.stream.sound = .failed res.2.1.bodySize
  going : res.2.2 = .going → res.2.1.stream.events.length + n ≤ r.stream.events.length

theorem drain_outcome (caps : List Nat) : (∀ c ∈ caps, 0 < c) → ∀ {r : HttpBodyReader} {f : Frame},
    r.Tracks f → r.bodyLineMaxLen = max →
    Outcome max f r caps.length (drain pollRead finished caps r) := by
  induction caps with
  | nil => exact fun _ r f _ _ => ⟨⟨[], rfl, fun _ => rfl⟩, by simp [drain], by simp [drain],
    fun _ => Nat.le_refl _⟩
  | cons cap caps ih =>
    intro hpos r f h hmax
    have hcap := hpos cap mem_cons_self
    have hrest : ∀ c ∈ caps, 0 < c := fun c hc => hpos c (mem_cons_of_mem _ hc)
    rw [drain]
    rcases hp : r.pollRead cap with ⟨_ | ⟨e | x⟩, r'⟩
    · have hes := h.stall hp
      have hlen := congrArg length hes.events
      obtain ⟨hd, hfin, hfail, hgo⟩ := ih hrest hes.tracks (hes.bound.trans hmax)
      rw [show r'.stream.content = _ from hes.content] at hd hfin
      rw [show r'.stream.sound = _ from hes.sound] at hfail
      refine ⟨hd, hfin, hfail, fun hgoing => ?_⟩
      have := hgo hgoing
      rw [length_append, length_singleton] at hlen
      rw [length_cons]
      dsimp only
      omega
    · obtain ⟨⟨t, ht, -⟩, hv⟩ := h.fail hp
      exact ⟨⟨t, ht, fun hnot => absurd rfl (hnot e)⟩, by simp, fun _ _ => hmax ▸ hv, by simp⟩
    · obtain ⟨es, rfl, hes, hstop⟩ := h.read hp
      have hcont := hes.content
      have hlen := congrArg length hes.events
      have hpass := hes.gets.passes
      rw [length_append] at hlen
      rw [hmax] at hpass
      dsimp only
      split
      case isTrue hf =>
        refine ⟨⟨[], by rw [append_nil]; exact hcont, fun _ => rfl⟩, fun _ => ?_, by simp, by simp⟩
        rw [← hcont, hpass, hes.tracks.done hf, Frame.verdict_done, ← hes.tracks.size]
        rfl
      case isFalse hf =>
        have hlater := ih hrest hes.tracks (hes.bound.trans hmax)
        generalize drain pollRead finished caps r' = res at hlater ⊢
        obtain ⟨d', q, ending⟩ := res
        obtain ⟨⟨t, ht, hnone⟩, hfin, hfail, hgo⟩ := hlater
        rw [← hpass, hcont] at hfin
        rw [← hpass, hes.sound] at hfail
        refine ⟨⟨t, ?_, hnone⟩, hfin, hfail, fun hgoing => ?_⟩
        · rw [append_assoc, append_assoc, ← append_assoc _ t, ht, hcont]
        · have hmore := hgo hgoing
          -- an empty buffer is left at the end of the body, or at a stall
          have hstep : es ≠ [] := by
            rintro rfl
            exact hf ((hstop hcap).resolve_right fun hs => hs.2 rfl)
          have := length_pos_iff.mpr hstep
          rw [length_cons]
          dsimp only at hmore ⊢
          omega

end

section

variable [AtoiRadix16]

/-- A stream that is there in one slice is read to its end by one poll with room for all of it. -/
theorem drain_whole {w : Source} {max cap : Nat} (hw : w.arrivals = [])
    (hcap : w.content.length < cap) :
    (drain pollRead finished [cap] (newChunked w max)).2.2 ≠ .going := by
  have hbytes : ∀ ev ∈ w.events, ∃ b, ev = .byte b := by
    intro ev hev
    simp only [Source.events, hw, flatMap_nil, append_nil, mem_map] at hev
    obtain ⟨b, -, rfl⟩ := hev
    exact ⟨b, rfl⟩
  rw [drain]
  rcases hp : (newChunked w max).pollRead cap with ⟨_ | ⟨e | x⟩, r'⟩
  all_goals have hans := (tracks_newChunked w max).pollRead cap
  all_goals rw [hp] at hans
  · obtain ⟨b, hb⟩ := hbytes .stall (hans.2.events ▸ mem_cons_self)
    cases hb
  · simp
  · obtain ⟨es, hx, hes, hstop⟩ := hans
    obtain rfl : x = bytesOf es := hx
    have hshort : (bytesOf es).length < cap := by
      have := congrArg length (show bytesOf es ++ r'.stream.content = w.content from hes.content)
      rw [length_append] at this
      omega
    rcases hstop hshort with hf | ⟨hs, -⟩
    · dsimp only
      rw [if_pos hf]
      simp
    · obtain ⟨b, hb⟩ := hbytes .stall (hes.events ▸ mem_append_left _ hs)
      cases hb

/-- A chunked body in any segments, with any stalls, into buffers of any sizes: what is handed over is
    what is taken off the stream as long as no poll fails, and the reading ends as it does when the
    stream is there in one slice and the buffer has room for it. -/
theorem newChunked_segments (s : Source) (hs : s.Unfailing) (max : Nat) (caps : List Nat)
    (hcaps : ∀ c ∈ caps, 0 < c) (w : Source) (hw : w.buffered = s.content ∧ w.arrivals = [])
    (cap : Nat) (hcap : s.content.length < cap) :
    let run := drain pollRead HttpBodyReader.finished caps (newChunked s max)
    let whole := drain pollRead HttpBodyReader.finished [cap] (newChunked w max)
    (∃ t, run.1 ++ t ++ run.2.1.stream.content = s.content ∧
      ((∀ e, run.2.2 ≠ .failed e) → t = [])) ∧
    (s.events.length < caps.length → run.2.2 ≠ .going) ∧ whole.2.2 ≠ .going ∧
    (run.2.2 ≠ .going → (run.2.2 = .finished ↔ whole.2.2 = .finished) ∧
      run.2.1.bodySize = whole.2.1.bodySize ∧
      (run.2.2 = .finished → run.2.1.stream.content = whole.2.1.stream.content)) := by
  intro run whole
  have hwc : w.content = s.content := by
    rw [Source.content, hw.1, hw.2, flatMap_nil, append_nil]
  have hcalm : w.Unfailing := by
    intro e
    rw [hw.2]
    simp
  have hrun : Outcome max Frame.start (newChunked s max) caps.length run :=
    drain_outcome caps hcaps (tracks_newChunked s max) rfl
  have hwhole : Outcome max Frame.start (newChunked w max) 1 whole :=
    drain_outcome [cap] (by simp; omega) (tracks_newChunked w max) rfl
  have hend : whole.2.2 ≠ .going := drain_whole hw.2 (by rw [hwc]; exact hcap)
  have hsame : (newChunked w max).stream.content = (newChunked s max).stream.content := hwc
  have hwfin := hsame ▸ hwhole.finished
  have hsound : (newChunked s max).stream.sound = (newChunked s max).stream.content := hs.sound
  have hwsound : (newChunked w max).stream.sound = (newChunked s max).stream.content :=
    hcalm.sound.trans hwc
  have hfail := hsound ▸ hrun.failed
  have hwfail := hwsound ▸ hwhole.failed
  refine ⟨hrun.delivered, fun hlong hgoing => ?_, hend, fun hdone => ?_⟩
  · have hle := hrun.going hgoing
    have : (newChunked s max).stream.events = s.events := rfl
    rw [this] at hle
    omega
  · -- both endings are the verdict on one stream
    cases he : run.2.2 with
    | going => exact absurd he hdone
    | finished =>
      have hv := hrun.finished he
      cases he' : whole.2.2 with
      | going => exact absurd he' hend
      | finished =>
        have hboth := hv.symm.trans (hwfin he')
        obtain ⟨hrest, hsize⟩ := Verdict.finished.inj hboth
        exact ⟨⟨fun _ => rfl, fun _ => rfl⟩, hsize, fun _ => hrest⟩
      | failed e => cases hv.symm.trans (hwfail e he')
    | failed e =>
      have hv := hfail e he
      cases he' : whole.2.2 with
      | going => exact absurd he' hend
      | finished => cases hv.symm.trans (hwfin he')
      | failed e' =>
        have hboth := hv.symm.trans (hwfail e' he')
        exact ⟨⟨by simp, by simp⟩, Verdict.failed.inj hboth, by simp⟩

end

/-- A body of three bytes with every CRLF cut in two, and a byte behind it. -/
def splitBody : Source :=
  ⟨[51, 13], [.slice 10 [97, 98], .stall, .slice 99 [13], .slice 10 [48, 13], .slice 10 [13], .stall,
    .slice 10 [88]], by decide⟩

theorem newChunked_segments_split :
    let run := drain pollRead HttpBodyReader.finished (List.replicate 20 1) (newChunked splitBody 8)
    let whole := drain pollRead HttpBodyReader.finished [64]
      (newChunked ⟨splitBody.content, [], by decide⟩ 8)
    run.2.2 = .finished ∧ run.1.length = 13 ∧ run.2.1.bodySize = 3 ∧ whole.2.2 = .finished ∧
    whole.2.1.bodySize = 3 ∧ run.2.1.stream.content = whole.2.1.stream.content := by
  have hs : splitBody.Unfailing := by
    intro e
    simp [splitBody]
  have hrun : (drain pollRead finished (replicate 20 1)
      (newChunked splitBody 8)).2.2 = .finished ∧
      (drain pollRead finished (replicate 20 1)
        (newChunked splitBody 8)).1.length = 13 ∧
      (drain pollRead finished (replicate 20 1)
        (newChunked splitBody 8)).2.1.bodySize = 3 := by decide +kernel
  obtain ⟨-, -, -, h⟩ := newChunked_segments splitBody hs 8 (replicate 20 1) (by decide)
    ⟨splitBody.content, [], by decide⟩ ⟨rfl, rfl⟩ 64 (by decide)
  obtain ⟨hiff, hsize, hrest⟩ := h (by rw [hrun.1]; simp)
  exact ⟨hrun.1, hrun.2.1, hrun.2.2, hiff.mp hrun.1, hsize.symm.trans hrun.2.2, hrest hrun.1⟩

/-- A poll that fails has taken the bytes of the broken line off the stream and hands none over. -/
theorem newChunked_swallows :
    let run := drain pollRead HttpBodyReader.finished [64]
      (newChunked ⟨[53, 13, 88], [], by decide⟩ 1024)
    run.1 = [] ∧ run.2.1.stream.content = [] ∧
    run.2.2 = .failed ⟨.invalidData, "invalid chunk size line ending"⟩ := by
  decide +kernel

end HttpBodyReader

end Vey.Http
