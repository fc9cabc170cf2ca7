import Vey.Http.BodyToChunked
import Vey.IoExt.StreamFlush

/-! When a body is relayed as a chunked body, is it flushed at the end?

        ReadUntilEnd    Encode: poll_flush Ok, Ready
        Chunked         Copy: flushes what it remembers
        ContentLength   SendNoTrailerEnd: the last chunk is written, Ready, FlushEnd is not polled

    The copy does not know that a size line ahead of it is to be flushed; but it has the end of the
    body to write, and flushes that. -/

namespace Vey.Http
open Schemes IoExt List Frame

/-- The encoder is ready behind a flush. -/
theorem StreamToChunkedTransfer.pollEncode_flushed {κ : Type} [AsyncWrite κ] {owes : κ → Prop}
    (hd : Debt owes) {s t : StreamToChunkedTransfer κ} {n : Nat}
    (h : s.pollEncode = .ret (.ready (.ok n)) t) : ¬owes t.writer := by
  unfold pollEncode at h
  split at h
  · unfold nextChunk at h
    split at h
    · split at h <;> cases h
    · cases h
  · unfold sendHeader at h
    split at h
    · split at h <;> cases h
    · split at h
      · split at h <;> cases h
        next w hw => exact fun howes => absurd (hd.flush hw howes).2 (by simp [Flushed.isOk])
      · cases h
  · unfold sendPayload at h
    split at h
    · split at h
      · cases h
      · cases h
      · split at h <;> cases h
    · dsimp only at h
      split at h <;> cases h

namespace H1BodyToChunkedTransfer

section

variable [AtoiRadix16] {ω : Type} [AsyncWrite ω] {kind : BodyKind} {input : Bytes}
  {t : H1BodyToChunkedTransfer (Tapped (Flushed ω))}

/-- A whole body was written and not flushed since. -/
def Owes (w : Tapped (Flushed ω)) : Prop :=
  w.inner.dirty = true ∧ (feed sizeOf start w.log).st = .done

theorem debt_owes : Debt (Owes (ω := ω)) where
  write := by
    rintro w w' b r h hr ⟨hdirty, hdone⟩
    have hinner : pollWrite w.inner b = (r, w'.inner) := by
      obtain ⟨rfl, rfl⟩ := Prod.mk.inj h
      rfl
    have hlog : w'.log = w.log := by
      rw [tapped_pollWrite h]
      rcases r with _ | _ | n
      · exact append_nil _
      · exact append_nil _
      · cases hr
    exact ⟨Flushed.debt.write hinner hr hdirty, hlog ▸ hdone⟩
  flush := by
    rintro w w' r h ⟨hdirty, hdone⟩
    have hinner : pollFlush w.inner = (r, w'.inner) := by
      obtain ⟨rfl, rfl⟩ := Prod.mk.inj h
      rfl
    obtain ⟨hdebt, hr⟩ := Flushed.debt.flush hinner hdirty
    exact ⟨⟨hdebt, tapped_pollFlush h ▸ hdone⟩, hr⟩

/-- What is known of the states of a body whose length is not known. -/
def Remembered : ChunkedTransferState (Tapped (Flushed ω)) → Prop
  | .sendHead s => (feed sizeOf start s.head).st ≠ .done
  | .copy c => c.Remembers Owes
  | .encode _ => True
  | .sendNoTrailerEnd _ | .flushEnd _ _ | .ended _ _ => False

structure Lawful (t : H1BodyToChunkedTransfer (Tapped (Flushed ω))) : Prop where
  type : ∀ len, t.bodyType ≠ .contentLength len
  state : Remembered t.state

omit [AsyncWrite ω] in
theorem Lawful.enter (h : t.Lawful) : { t with state := t.state.enter }.Lawful := by
  obtain ⟨bodyType, config, state⟩ := t
  cases state <;> exact ⟨h.type, h.state⟩

/-- The step is not one in which a flush of the copy stalls together with its reader. -/
def Flushing (t : H1BodyToChunkedTransfer ω) : Prop := ∀ c, t.state = .copy c → ¬c.flushStalls

theorem poll_lawful (hinv : t.Inv kind input) (h : t.Lawful) (hgo : t.Flushing) :
    t.poll.Ensures Lawful fun _ u => ¬Owes u.state.writer := by
  obtain ⟨htype, h⟩ := h
  unfold Inv at hinv
  unfold poll
  cases hs : t.state with
  | sendHead s =>
    rw [hs] at hinv h
    dsimp only
    unfold pollSendHead
    split
    next =>
      split
      case h_2 | h_3 => exact trivial
      all_goals exact ⟨htype, h⟩
    next hge =>
      -- what was written is the size line, and no whole body
      have hlog := hinv.2.1
      rw [drop_eq_nil_of_le (by omega), append_nil] at hlog
      refine ⟨htype, fun howes => absurd howes.2 ?_⟩
      show (feed sizeOf start s.writer.log).st ≠ .done
      rwa [hlog]
  | copy c =>
    rw [hs] at h
    have hstep := StreamCopy.pollCopy_remembers debt_owes h (hgo c hs)
    dsimp only
    unfold pollCopy
    split
    case h_1 c' he | h_2 c' he => rw [he] at hstep; exact ⟨htype, hstep⟩
    case h_3 => exact trivial
    case h_4 n c' he =>
      rw [he] at hstep
      dsimp only
      split
      next len hty => exact absurd hty (htype len)
      next => exact hstep
  | encode e =>
    dsimp only
    unfold pollEncode
    split
    case h_1 | h_2 => exact ⟨htype, trivial⟩
    case h_3 => exact trivial
    case h_4 n e' he => exact StreamToChunkedTransfer.pollEncode_flushed debt_owes he
  | sendNoTrailerEnd | flushEnd | ended =>
    rw [hs] at h
    exact h.elim

omit [AsyncWrite ω] in
theorem lawful_transfer (hkind : ∀ len, kind ≠ .ofType (.contentLength len)) (src : Source) (w : ω)
    (maxLen : Nat) (config : StreamCopyConfig) :
    (kind.transfer src (tap (⟨w, false⟩ : Flushed ω)) maxLen config).Lawful := by
  have hclean : ¬Owes (tap (⟨w, false⟩ : Flushed ω)) := fun howes => Bool.false_ne_true howes.1
  rcases kind with (_ | len | _) | left
  · exact ⟨by simp [BodyKind.transfer, new, newReadUntilEnd], trivial⟩
  · exact absurd rfl (hkind len)
  · exact ⟨by simp [BodyKind.transfer, new, newChunked], fun howes => absurd howes hclean⟩
  · unfold BodyKind.transfer newChunkedAfterPreview
    dsimp only
    split
    next => exact ⟨by simp [newChunked], fun howes => absurd howes hclean⟩
    next h0 =>
      refine ⟨by simp, ?_⟩
      show (feed sizeOf start (hexFmt left.toNat ++ [cr, lf])).st ≠ .done
      rw [start, feed_chunkSize left.toNat_lt fun h => h0 (UInt64.toNat_inj.mp h)]
      simp

/-- The transfer of a body whose length is not known, in every run in which no flush of its copy stalls
    together with the reader: when it completes, a flush has succeeded since the last write. -/
theorem transfer_flushed (kind : BodyKind) (hkind : ∀ len, kind ≠ .ofType (.contentLength len))
    (src : Source) (w : ω) (maxLen : Nat) (config : StreamCopyConfig)
    (u t : H1BodyToChunkedTransfer (Tapped (Flushed ω)))
    (hruns : (future (Tapped (Flushed ω))).Runs Flushing
      ((future _).enter (kind.transfer src (tap ⟨w, false⟩) maxLen config)) u)
    (hlast : u.Flushing) (hready : u.poll = .ret (.ready (.ok ())) t) :
    t.state.writer.inner.dirty = false := by
  have hinv := inv_transfer kind src (⟨w, false⟩ : Flushed ω) maxLen config
  have hlaw := lawful_transfer hkind src w maxLen config
  have hu : u.Inv kind src.content ∧ u.Lawful := hruns.inv
    (I := fun v => v.Inv kind src.content ∧ v.Lawful) ⟨hinv.enter, hlaw.enter⟩
    fun hv hgo hmove => ⟨hmove.ensures (I := Inv kind _) Inv.enter (poll_ensures hv.1),
      hmove.ensures (I := Lawful) Lawful.enter (poll_lawful hv.1 hv.2 hgo)⟩
  have hdone := poll_ensures hu.1
  have howes := poll_lawful hu.1 hu.2 hlast
  rw [hready] at hdone howes
  obtain ⟨_, _, -, -, hframe, -⟩ := hdone.exact
  exact Bool.eq_false_iff.mpr fun hdirty => howes ⟨hdirty, congrArg Frame.st hframe⟩

end

/-- The rest of a chunk, of which two bytes are left. -/
def twoLeft : H1BodyToChunkedTransfer (Tapped (Flushed FairSink)) :=
  (BodyKind.chunkedAfterPreview 2).transfer ⟨ascii "lo\r\n0\r\n\r\n", [], by decide⟩
    (tap ⟨{}, false⟩) 64 ⟨8, 4⟩

theorem transfer_flushed_twoLeft :
    ∃ u t, (future (Tapped (Flushed FairSink))).Runs Flushing ((future _).enter twoLeft) u ∧
      u.poll = .ret (.ready (.ok ())) t ∧ t.state.writer.inner.dirty = false := by
  let p (t : H1BodyToChunkedTransfer (Tapped (Flushed FairSink))) : Bool :=
    (pollFlush t.state.writer).1 != .pending
  have hp : ∀ t, p t = true → t.Flushing := by
    intro t ht c hc hstall
    rw [show p t = ((pollFlush c.writer).1 != .pending) by simp only [p, hc]; rfl] at ht
    exact bne_iff_ne.mp ht hstall.2.2.2.2.2
  have hany : ((future _).afterWhile p 9 ((future _).enter twoLeft)).any
      (fun u => p u && u.poll.isOk fun _ => true) = true := by decide +kernel
  obtain ⟨u, hafter, hu⟩ := (Option.any_eq_true _ _).mp hany
  obtain ⟨hlast, hu⟩ := (Bool.and_eq_true _ _).mp hu
  have hruns := Future.afterWhile_runs hp hafter
  obtain ⟨_, t, ht, -⟩ := Ctrl.isOk_iff.mp hu
  exact ⟨u, t, hruns, ht, transfer_flushed _ (by simp) _ _ _ _ u t hruns (hp u hlast) ht⟩

/-- A body of one byte: the transfer completes, and nobody has flushed the writer. -/
theorem not_transfer_flushed :
    ∃ t, (future (Tapped (Flushed FairSink))).Completes
        ((BodyKind.ofType (.contentLength 1)).transfer ⟨ascii "x", [], by decide⟩
          (tap ⟨{}, false⟩) 64 ⟨8, 4⟩) (.ok ()) t ∧ t.state.writer.inner.dirty = true :=
  ⟨_, Future.drive_completes (n := 40) .start rfl, rfl⟩

end H1BodyToChunkedTransfer

end Vey.Http
