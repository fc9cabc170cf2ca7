import Vey.IoExt.Upload

/-! When a copy is done, is its data flushed?

        poll_write Ok --> need_flush --+-- EOF ----------> poll_flush Ok --> Ready
                                       |
                                       +-- read Pending --> need_flush := false, poll_flush
                                                              |
                                                              Pending: nobody asks again

    The copy flushes when its reader stalls, and takes this flush for done whatever it answers. -/

namespace Vey.IoExt
open Schemes StreamCopyBuffer

/-- A writer, and whether it took bytes since a flush of it was done. -/
structure Flushed (ω : Type) where
  inner : ω
  dirty : Bool

namespace Flushed

variable {ω : Type} [AsyncWrite ω]

/-- The answer of a call that succeeded. -/
def isOk {α : Type} : IoPoll α → Bool
  | .ready (.ok _) => true
  | _ => false

instance : AsyncWrite (Flushed ω) where
  pollWrite t b :=
    let (r, w) := pollWrite t.inner b
    (r, ⟨w, t.dirty || isOk r⟩)
  pollFlush t :=
    let (r, w) := pollFlush t.inner
    (r, ⟨w, t.dirty && !isOk r⟩)
  pollWrite_le := by
    intro t b n t' h
    simp only [Prod.mk.injEq] at h
    exact AsyncWrite.pollWrite_le (Prod.ext h.1 rfl)

theorem dirty_write {t t' : Flushed ω} {b : Bytes} {r : IoPoll Nat} (h : pollWrite t b = (r, t')) :
    t'.dirty = (t.dirty || isOk r) := by
  obtain ⟨rfl, rfl⟩ := Prod.mk.inj h
  rfl

theorem dirty_flush {t t' : Flushed ω} {r : IoPoll Unit} (h : pollFlush t = (r, t')) :
    t'.dirty = (t.dirty && !isOk r) := by
  obtain ⟨rfl, rfl⟩ := Prod.mk.inj h
  rfl

end Flushed

/-- What a writer owes a flush: only a write that succeeds makes it, and a flush that is done ends
    it. -/
structure Debt {κ : Type} [AsyncWrite κ] (owes : κ → Prop) : Prop where
  write : ∀ {w w' : κ} {b : Bytes} {r : IoPoll Nat}, pollWrite w b = (r, w') →
    Flushed.isOk r = false → owes w' → owes w
  flush : ∀ {w w' : κ} {r : IoPoll Unit}, pollFlush w = (r, w') → owes w' →
    owes w ∧ Flushed.isOk r = false

theorem Flushed.debt {ω : Type} [AsyncWrite ω] : Debt fun w : Flushed ω => w.dirty = true where
  write h hr hdirty := by rwa [dirty_write h, hr, Bool.or_false] at hdirty
  flush h hdirty := by
    rw [dirty_flush h, Bool.and_eq_true, Bool.not_eq_true'] at hdirty
    exact hdirty

namespace StreamCopyBuffer

variable {ρ κ : Type} [AsyncRead ρ] [AsyncWrite κ] {b b' : StreamCopyBuffer}

@[simp] theorem checkMoveCache_needFlush (b : StreamCopyBuffer) :
    b.checkMoveCache.needFlush = b.needFlush := by
  simp only [checkMoveCache]
  split <;> rfl

@[simp] theorem makeRoom_needFlush (b : StreamCopyBuffer) : b.makeRoom.needFlush = b.needFlush := by
  simp only [makeRoom]
  split
  · rfl
  · split
    · exact checkMoveCache_needFlush b
    · rfl

theorem pollFillBuf_needFlush {r r' : ρ} {a : IoPoll Unit} (h : b.pollFillBuf r = (a, b', r')) :
    b'.needFlush = b.needFlush := by
  rw [pollFillBuf] at h
  split at h
  · cases h; rfl
  · cases h; rfl
  · split at h <;> cases h <;> rfl

/-- A write that succeeds asks for a flush; any other leaves the buffer's wish as it is. -/
theorem pollWriteBuf_needFlush {owes : κ → Prop} (hd : Debt owes) {r r' : ρ} {w w' : κ}
    {a : CopyPoll Nat} (h : b.pollWriteBuf r w = (a, b', r', w'))
    (ha : ∀ e, a ≠ .ready (.error e)) :
    b'.needFlush = true ∨ b'.needFlush = b.needFlush ∧ (owes w' → owes w) := by
  rw [pollWriteBuf.eq_def] at h
  split at h
  case h_1 w₁ hw =>
    have hdebt : owes w₁ → owes w := hd.write hw rfl
    right
    split at h
    · cases h
      exact ⟨rfl, hdebt⟩
    · dsimp only at h
      split at h
      · split at h
        · cases h
          exact absurd rfl (ha _)
        · next hf =>
          cases h
          exact ⟨(pollFillBuf_needFlush hf).trans (checkMoveCache_needFlush b), hdebt⟩
      · cases h
        exact ⟨checkMoveCache_needFlush b, hdebt⟩
  case h_2 | h_3 => cases h; exact absurd rfl (ha _)
  case h_4 => cases h; exact .inl rfl

/-- An empty buffer is read into from its start. -/
theorem makeRoom_of_empty (h : b.rOff ≤ b.wOff) :
    b.makeRoom.wOff = 0 ∧ b.makeRoom.rOff = 0 ∧ b.makeRoom.buf.length = b.buf.length := by
  have hcached : b.cached = [] := by
    rw [cached, win, Nat.sub_eq_zero_of_le h, List.take_zero]
  rw [makeRoom]
  rcases h.eq_or_lt with heq | hlt
  · rw [if_pos heq.symm]
    exact ⟨rfl, rfl, rfl⟩
  · rw [if_neg hlt.ne', if_pos (by omega), checkMoveCache, if_pos (by omega)]
    refine ⟨rfl, Nat.sub_eq_zero_of_le h, ?_⟩
    rw [hcached]
    rfl

end StreamCopyBuffer

namespace StreamCopy

variable {ρ ω κ : Type} [AsyncRead ρ] [AsyncWrite ω] [AsyncWrite κ]

/-- What is owed is remembered. -/
def Remembers (owes : κ → Prop) (s : StreamCopy ρ κ) : Prop := owes s.writer → s.buf.needFlush = true

/-- The next step finds its reader stalled and the buffer empty, and the flush it owes stalls too. -/
def flushStalls (s : StreamCopy ρ ω) : Prop :=
  s.pc = .top ∧ s.buf.readDone = false ∧ s.buf.needFlush = true ∧
  s.buf.makeRoom.rOff < s.buf.makeRoom.buf.length ∧
  (∃ buf reader, s.buf.makeRoom.pollFillBuf s.reader = (.pending, buf, reader) ∧
    buf.rOff ≤ buf.wOff) ∧
  (pollFlush s.writer).1 = .pending

/-- What a flush that is done, or a buffer without a wish, leaves behind. -/
def Clean (owes : κ → Prop) (_ : Nat) (s : StreamCopy ρ κ) : Prop := ¬owes s.writer

section

variable {owes : κ → Prop} (hd : Debt owes) {s : StreamCopy ρ κ} (h : s.Remembers owes)
include hd h

omit [AsyncRead ρ] in
theorem idle_remembers (hflush : s.buf.needFlush = true → (pollFlush s.writer).1 ≠ .pending) :
    s.idle.Ensures (Remembers owes) (Clean owes) := by
  rw [idle]
  split
  next hneed =>
    split
    · exact trivial
    next r w hne hw =>
      intro howes
      have hready := hflush hneed
      have hno := (hd.flush hw howes).2
      rw [hw] at hready
      rcases r with _ | ⟨e | u⟩
      · exact absurd rfl hready
      · exact absurd rfl (hne e)
      · cases hno
  next => exact h

theorem fill_remembers (hpc : s.pc = .top) (hstall : ¬s.flushStalls) :
    s.fill.Ensures (Remembers owes) (Clean owes) := by
  rw [fill]
  split
  · exact h
  next hdone =>
    dsimp only
    split
    next hroom =>
      split
      next buf reader hf =>
        exact fun howes => ((pollFillBuf_needFlush hf).trans
          s.buf.makeRoom_needFlush).trans (h howes)
      · exact trivial
      next buf reader hf =>
        have hneed : buf.needFlush = s.buf.needFlush :=
          (pollFillBuf_needFlush hf).trans s.buf.makeRoom_needFlush
        have hkeeps : Remembers owes { s with buf := buf, reader := reader } :=
          fun howes => hneed.trans (h howes)
        split
        next hempty =>
          refine idle_remembers hd hkeeps fun hwish hpending => hstall ?_
          exact ⟨hpc, Bool.eq_false_iff.mpr hdone, hneed.symm.trans hwish, hroom,
            ⟨buf, reader, hf, hempty⟩, hpending⟩
        · exact hkeeps
    · exact fun howes => (s.buf.makeRoom_needFlush).trans (h howes)

theorem drain_remembers : s.drain.Ensures (Remembers owes) (Clean owes) := by
  have hwrote : ∀ {a buf reader writer}, s.buf.pollWriteBuf s.reader s.writer =
      (a, buf, reader, writer) → (∀ e, a ≠ .ready (.error e)) →
      owes writer → buf.needFlush = true := by
    intro a buf reader writer hw ha howes
    rcases pollWriteBuf_needFlush hd hw ha with hneed | ⟨hneed, hsame⟩
    · exact hneed
    · exact hneed.trans (h (hsame howes))
  rw [drain]
  split
  · split
    next hw => exact hwrote hw (by simp)
    · exact trivial
    next hw => exact hwrote hw (by simp)
  · split
    · split
      · split
        next w hw => exact fun howes => absurd (hd.flush hw howes).2 (by simp [Flushed.isOk])
        · exact trivial
        next w hw => exact fun howes => h (hd.flush hw howes).1
      next hneed => exact fun howes => hneed (h howes)
    · split <;> exact h

theorem pollCopy_remembers (hstall : ¬s.flushStalls) :
    s.pollCopy.Ensures (Remembers owes) (Clean owes) := by
  rw [pollCopy]
  split
  next hpc => exact fill_remembers hd h hpc hstall
  next => exact drain_remembers hd h

end

variable {s t : StreamCopy ρ (Flushed ω)}

/-- A flush that stalls with the reader is forgotten: at the end of the stream the copy is ready. -/
theorem forgets_flush (h : s.flushStalls) :
    ∃ u, s.pollCopy = .ret .pending u ∧ ((∀ cap, (pollRead u.reader cap).1 = .ready (.ok [])) →
      ∃ n t, (future ρ (Flushed ω)).Completes u (.ok n) t ∧ t.writer.dirty = s.writer.dirty) := by
  obtain ⟨hpc, hdone, hneed, hroom, ⟨buf, reader, hf, hempty⟩, hpending⟩ := h
  rcases hw : pollFlush s.writer with ⟨r, w⟩
  obtain rfl : r = .pending := by rw [hw] at hpending; exact hpending
  have hbuf : buf = s.buf.makeRoom := by
    rw [pollFillBuf] at hf
    split at hf
    · cases hf; rfl
    · cases hf
    · split at hf <;> cases hf
  subst hbuf
  have hwish := s.buf.makeRoom_needFlush.trans hneed
  have hstill : w.dirty = s.writer.dirty := by
    rw [Flushed.dirty_flush hw, Flushed.isOk, Bool.not_false, Bool.and_true]
    exact nofun
  refine ⟨{ s with buf := { s.buf.makeRoom with needFlush := false }, reader := reader, writer := w },
    ?_, fun heof => ?_⟩
  · rw [pollCopy, hpc]
    rw [fill, if_neg (by rw [hdone]; exact nofun)]
    rw [if_pos hroom, hf]
    dsimp only
    rw [if_pos hempty, idle, if_pos hwish, hw, hpc]
  · -- the next poll reads the end of the stream and has nothing to write
    let b : StreamCopyBuffer := { s.buf.makeRoom with needFlush := false }
    obtain ⟨hw0, hr0, hlen⟩ := makeRoom_of_empty (b := b) hempty
    have hnd : b.readDone = false := (makeRoom_readDone s.buf).trans hdone
    have hnf : b.makeRoom.needFlush = false := b.makeRoom_needFlush
    rcases hr : pollRead reader (b.makeRoom.buf.length - b.makeRoom.rOff) with ⟨a, r⟩
    obtain rfl : a = .ready (.ok []) := by
      have := heof (b.makeRoom.buf.length - b.makeRoom.rOff)
      rw [hr] at this
      exact this
    have hread : b.makeRoom.pollFillBuf reader =
        (.ready (.ok ()), { b.makeRoom with readDone := true }, r) := by
      rw [pollFillBuf, hr]
      rfl
    have hfull : b.makeRoom.rOff < b.makeRoom.buf.length := by
      rw [hr0, hlen]
      exact Nat.lt_of_le_of_lt (Nat.zero_le _) hroom
    let v : StreamCopy ρ (Flushed ω) :=
      { reader := r, writer := w, buf := { b.makeRoom with readDone := true }, pc := .write }
    have hnext : (StreamCopy.enter { s with buf := b, reader := reader, writer := w }).pollCopy =
        .next v := by
      rw [enter, pollCopy]
      rw [fill, if_neg (by rw [hnd]; exact nofun)]
      rw [if_pos hfull, hread]
    refine ⟨v.buf.totalWrite, v, ⟨v, .next .start hnext, ?_⟩, hstill⟩
    have hidle : ¬b.makeRoom.wOff < b.makeRoom.rOff := by omega
    rw [future]
    dsimp only
    rw [pollCopy]
    dsimp only [v]
    rw [drain, if_neg hidle, if_pos rfl, if_neg (by rw [hnf]; exact nofun)]

/-- A copy that is ready has been flushed since its last write, in every run in which no flush stalls
    together with the reader; one that does is forgotten, and where the stream ends there the copy is
    ready with bytes that are not flushed. -/
theorem pollCopy_flushed (ρ ω : Type) [AsyncRead ρ] [AsyncWrite ω] :
    (∀ (s u t : StreamCopy ρ (Flushed ω)) (n : Nat), s.writer.dirty = false →
      (future ρ (Flushed ω)).Runs (fun s => ¬s.flushStalls) s.enter u →
      u.pollCopy = .ret (.ready (.ok n)) t → t.writer.dirty = false) ∧
    ∀ s : StreamCopy ρ (Flushed ω), s.flushStalls → s.writer.dirty = true →
      ∃ u, s.pollCopy = .ret .pending u ∧ ((∀ cap, (pollRead u.reader cap).1 = .ready (.ok [])) →
        ∃ n t, (future ρ (Flushed ω)).Completes u (.ok n) t ∧ t.writer.dirty = true) := by
  refine ⟨fun s u t n hclean hruns hready => ?_, fun s hstall hdirty => ?_⟩
  · have hstart : s.enter.Remembers (·.dirty = true) :=
      fun hdirty => absurd (hclean.symm.trans hdirty) nofun
    have hu : u.Remembers (·.dirty = true) := hruns.inv hstart fun hI hP hmove =>
      hmove.ensures id (pollCopy_remembers Flushed.debt hI hP)
    by_cases hstall : u.flushStalls
    · obtain ⟨v, hpending, -⟩ := forgets_flush hstall
      cases hpending.symm.trans hready
    · have hensures := pollCopy_remembers Flushed.debt hu hstall
      rw [hready] at hensures
      exact Bool.eq_false_iff.mpr hensures
  · obtain ⟨u, hpending, hready⟩ := forgets_flush hstall
    refine ⟨u, hpending, fun heof => ?_⟩
    obtain ⟨n, t, hcompletes, hsame⟩ := hready heof
    exact ⟨n, t, hcompletes, hsame.trans hdirty⟩

/-- A byte arrives, then nothing for a while, then the end. -/
def oneByte (flushes : List Bool) : StreamCopy Take (Flushed FairSink) :=
  .new ⟨⟨[], [.slice 65 [], .stall], nil_fits⟩, 8⟩ ⟨{ flushes := flushes }, false⟩ {}

/-- The run up to the step in which the copy into a writer that flushes at once is ready. -/
theorem pollCopy_flushed_oneByte :
    ∃ u t, (future Take (Flushed FairSink)).Runs (fun s => ¬s.flushStalls) (oneByte []).enter u ∧
      u.pollCopy = .ret (.ready (.ok 1)) t ∧ t.writer.dirty = false := by
  have hany : ((future Take (Flushed FairSink)).afterWhile
      (fun s => (pollFlush s.writer).1 != .pending) 5 (oneByte []).enter).any (fun u =>
      u.pollCopy.isOk (· == 1)) = true := by decide +kernel
  obtain ⟨u, hafter, hu⟩ := (Option.any_eq_true _ _).mp hany
  have hruns := Future.afterWhile_runs (P := fun s => ¬s.flushStalls)
    (fun s hs hstall => (bne_iff_ne.mp hs) hstall.2.2.2.2.2) hafter
  obtain ⟨n, t, ht, hn⟩ := Ctrl.isOk_iff.mp hu
  obtain rfl := beq_iff_eq.mp hn
  exact ⟨u, t, hruns, ht, (pollCopy_flushed _ _).1 _ u t 1 rfl hruns ht⟩

/-- The byte is written, its flush stalls, and the copy is ready. -/
theorem not_pollCopy_flushed :
    ∃ t, (future Take (Flushed FairSink)).Completes (oneByte [false]) (.ok 1) t ∧
      t.writer.dirty = true := by
  have hany : ((future Take (Flushed FairSink)).drive 12 (oneByte [false]).enter).any (fun r =>
      r.1 == .ok 1 && r.2.writer.dirty) = true := by decide +kernel
  obtain ⟨⟨a, t⟩, hdrive, ht⟩ := (Option.any_eq_true _ _).mp hany
  rw [Bool.and_eq_true, beq_iff_eq] at ht
  obtain ⟨rfl, hdirty⟩ := ht
  exact ⟨t, Future.drive_completes .start hdrive, hdirty⟩

end StreamCopy

end Vey.IoExt
