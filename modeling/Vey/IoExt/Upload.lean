import Vey.IoExt.StreamCopy

/-! What the relays of line based protocols send on: a line (`write_all_flush`), and a block of
    known size of which a part is already buffered.

        writeAll cache  --all buffered-->  flush
              |
              +--  n bytes missing  -->  copy of reader.take(n) -/

namespace Vey.IoExt
open Schemes List

/-! ### A reader cut short -/

/-- `AsyncReadExt::take` -/
structure Take where
  inner : Source
  limit : Nat
  deriving DecidableEq

namespace Take

def pollRead (t : Take) (cap : Nat) : IoPoll Bytes × Take :=
  if t.limit = 0 then (.ready (.ok []), t)
  else
    match t.inner.pollRead (min cap t.limit) with
    | (.ready (.ok d), r) => (.ready (.ok d), ⟨r, t.limit - d.length⟩)
    | (.ready (.error e), r) => (.ready (.error e), ⟨r, t.limit⟩)
    | (.pending, r) => (.pending, ⟨r, t.limit⟩)

theorem pollRead_pending {t t' : Take} {cap : Nat} (h : t.pollRead cap = (.pending, t')) :
    t'.inner.content = t.inner.content ∧ t'.limit = t.limit := by
  unfold pollRead at h
  split at h
  case isTrue => cases h
  case isFalse =>
    split at h <;> cases h
    next hp => exact ⟨Source.pollRead_pending hp, rfl⟩

theorem pollRead_ok {t t' : Take} {cap : Nat} {d : Bytes}
    (h : t.pollRead cap = (.ready (.ok d), t')) :
    d ++ t'.inner.content = t.inner.content ∧ d.length + t'.limit = t.limit ∧ d.length ≤ cap ∧
      (0 < cap → d = [] → t'.limit = 0 ∨ t'.inner.content = []) := by
  unfold pollRead at h
  split at h
  case isTrue hz =>
    cases h
    exact ⟨rfl, by simp, Nat.zero_le _, fun _ _ => .inl hz⟩
  case isFalse hnz =>
    split at h <;> cases h
    next hp =>
      obtain ⟨hc, hle, hend⟩ := Source.pollRead_ok hp
      exact ⟨hc, by simp only; omega, by omega, fun hcap hd => .inr (hend (by omega) hd)⟩

instance : AsyncRead Take where
  pollRead := pollRead
  pollRead_le h := (pollRead_ok h).2.2.1

/-- A reader of the next `n` bytes of `input`. -/
def spec (n : Nat) (input : Bytes) : ReaderSpec Take where
  rel d t := d ++ t.inner.content = input ∧ d.length + t.limit = n
  eof t := t.limit = 0 ∨ t.inner.content = []
  read := by
    rintro d x t t' cap ⟨hin, hn⟩ - h
    obtain ⟨hc, hl, -, -⟩ := pollRead_ok h
    exact ⟨by rw [List.append_assoc, hc, hin], by rw [List.length_append]; omega⟩
  stall := by
    rintro d t t' cap ⟨hin, hn⟩ - h
    obtain ⟨hc, hl⟩ := pollRead_pending h
    exact ⟨by rw [hc, hin], by rw [hl, hn]⟩
  stop := by
    rintro d t t' cap - hcap h
    exact (pollRead_ok h).2.2.2 hcap rfl

/-- A reader at its end has delivered the next `n` bytes, or all there were. -/
theorem spec_eof {n : Nat} {input d : Bytes} {t : Take} (h : (spec n input).rel d t)
    (he : (spec n input).eof t) : d = input.take n ∧ t.inner.content = input.drop n := by
  obtain ⟨hin, hn⟩ := h
  rcases he with hz | hnil
  · rw [hz, Nat.add_zero] at hn
    rw [← hin, ← hn, take_left, drop_left]
    exact ⟨rfl, rfl⟩
  · rw [hnil, append_nil] at hin
    subst hin
    rw [take_of_length_le (by omega), drop_eq_nil_of_le (by omega)]
    exact ⟨rfl, hnil⟩

end Take

/-! ### Writing a line -/

/-- What `write_all` answers when the writer takes nothing. -/
def writeZero : IoError := ⟨.writeZero, "write zero"⟩

/-- `write_all_flush`; `buf` is what is still to be written. -/
structure WriteAllFlush (ω : Type) where
  buf : Bytes
  writer : ω
  deriving DecidableEq

namespace WriteAllFlush

variable {ω : Type} [AsyncWrite ω]

def poll (s : WriteAllFlush ω) : Ctrl (WriteAllFlush ω) (Poll (Except IoError Unit)) :=
  if s.buf = [] then
    match pollFlush s.writer with
    | (.pending, w) => .ret .pending { s with writer := w }
    | (.ready (.error e), w) => .ret (.ready (.error e)) { s with writer := w }
    | (.ready (.ok _), w) => .ret (.ready (.ok ())) { s with writer := w }
  else
    match pollWrite s.writer s.buf with
    | (.pending, w) => .ret .pending { s with writer := w }
    | (.ready (.error e), w) => .ret (.ready (.error e)) { s with writer := w }
    | (.ready (.ok 0), w) => .ret (.ready (.error writeZero)) { s with writer := w }
    | (.ready (.ok n), w) => .next ⟨s.buf.drop n, w⟩

/-- Written and unwritten bytes are the same at every point, and at the end all is written. -/
theorem poll_ensures {s : WriteAllFlush (Tapped ω)} {all : Bytes}
    (h : s.writer.log ++ s.buf = all) :
    s.poll.Ensures (fun t => t.writer.log ++ t.buf = all) fun _ t => t.writer.log = all := by
  unfold poll
  split
  case isTrue hnil =>
    rw [hnil, append_nil] at h
    refine flushStep_ensures (fun hw => ?_) fun hw => hw.trans h
    dsimp only
    rw [hw, hnil, append_nil, h]
  case isFalse =>
    refine writeStep_ensures (fun hw => (congrArg (· ++ s.buf) hw).trans h) fun _ _ hw => ?_
    dsimp only
    rw [hw, append_assoc, take_append_drop, h]

end WriteAllFlush

/-- `write_all`; `buf` is what is still to be written. -/
structure WriteAll (ω : Type) where
  buf : Bytes
  writer : ω

namespace WriteAll

variable {ω : Type} [AsyncWrite ω]

def poll (s : WriteAll ω) : Ctrl (WriteAll ω) (Poll (Except IoError Unit)) :=
  if s.buf = [] then .ret (.ready (.ok ())) s
  else
    match pollWrite s.writer s.buf with
    | (.pending, w) => .ret .pending { s with writer := w }
    | (.ready (.error e), w) => .ret (.ready (.error e)) { s with writer := w }
    | (.ready (.ok 0), w) => .ret (.ready (.error writeZero)) { s with writer := w }
    | (.ready (.ok n), w) => .next ⟨s.buf.drop n, w⟩

theorem poll_ensures {s : WriteAll (Tapped ω)} {all : Bytes} (h : s.writer.log ++ s.buf = all) :
    s.poll.Ensures (fun t => t.writer.log ++ t.buf = all) fun _ t => t.writer.log = all := by
  unfold poll
  split
  case isTrue hnil =>
    rw [hnil, append_nil] at h
    exact h
  case isFalse =>
    refine writeStep_ensures (fun hw => (congrArg (· ++ s.buf) hw).trans h) fun _ _ hw => ?_
    dsimp only
    rw [hw, append_assoc, take_append_drop, h]

end WriteAll

/-! ### Sending a block -/

/-- A block on its way: the buffered part `cache` first, then `left` bytes of the reader. -/
inductive Upload (ω : Type) where
  | writeAll (cache : Bytes) (left : Nat) (reader : Source) (writer : ω)
  | flush (reader : Source) (writer : ω)
  | copy (c : StreamCopy Take ω)
  deriving DecidableEq

namespace Upload

variable {ω : Type}

def reader : Upload ω → Source
  | .writeAll _ _ r _ => r
  | .flush r _ => r
  | .copy c => c.reader.inner

def writer : Upload ω → ω
  | .writeAll _ _ _ w => w
  | .flush _ w => w
  | .copy c => c.writer

/-- A further poll of the copy inside. -/
def enter : Upload ω → Upload ω
  | .copy c => .copy c.enter
  | u => u

variable [AsyncWrite ω] (config : StreamCopyConfig)

def poll (u : Upload ω) : Ctrl (Upload ω) (CopyPoll Unit) :=
  match u with
  | .writeAll cache left r w =>
    if cache = [] then
      if left = 0 then .next (.flush r w) else .next (.copy (.new ⟨r, left⟩ w config))
    else
      match pollWrite w cache with
      | (.pending, w) => .ret .pending (.writeAll cache left r w)
      | (.ready (.error e), w) => .ret (.ready (.error (.writeFailed e))) (.writeAll cache left r w)
      | (.ready (.ok 0), w) =>
        .ret (.ready (.error (.writeFailed writeZero))) (.writeAll cache left r w)
      | (.ready (.ok n), w) => .next (.writeAll (cache.drop n) left r w)
  | .flush r w =>
    match pollFlush w with
    | (.pending, w) => .ret .pending (.flush r w)
    | (.ready (.error e), w) => .ret (.ready (.error (.writeFailed e))) (.flush r w)
    | (.ready (.ok _), w) => .ret (.ready (.ok ())) (.flush r w)
  | .copy c =>
    c.pollCopy.await .copy id fun _ c => .ret (.ready (.ok ())) (.copy c)

/-- The block is written when `sent` is in the log, and `rest` is what the reader has left. -/
def Sent (sent rest : Bytes) (u : Upload (Tapped ω)) : Prop :=
  u.writer.log = sent ∧ u.reader.content = rest

/-- The law of an upload that takes `n` bytes of `input` behind `head`. -/
def Inv (head : Bytes) (n : Nat) (input : Bytes) : Upload (Tapped ω) → Prop
  | .writeAll cache left r w => w.log ++ cache = head ∧ left = n ∧ r.content = input
  | .flush r w => w.log = head ∧ n = 0 ∧ r.content = input
  | .copy c => c.Inv (Take.spec n input) head.length head

variable {head input : Bytes} {n : Nat} {u : Upload (Tapped ω)}

omit [AsyncWrite ω] in
theorem Inv.enter (h : u.Inv head n input) : u.enter.Inv head n input := by
  cases u with
  | writeAll => exact h
  | flush => exact h
  | copy c => exact h

omit [AsyncWrite ω] in
/-- A copy that starts behind `head`. -/
theorem inv_copy {r : Source} {w : Tapped ω} (hlog : w.log = head)
    (hin : r.content = input) : (copy (.new ⟨r, n⟩ w config)).Inv head n input := by
  refine ⟨[], ⟨hin, Nat.zero_add _⟩, ?_, nofun⟩
  simpa [hlog, StreamCopy.new] using (Conserves.new config).behind head

/-- An upload that is through has sent the block and left the rest of the stream. -/
theorem poll_ensures (h : u.Inv head n input) :
    (u.poll config).Ensures (Inv head n input) fun _ => Sent (head ++ input.take n) (input.drop n) := by
  cases u with
  | writeAll cache left r w =>
    obtain ⟨hlog, rfl, hin⟩ := h
    simp only [poll]
    split
    case isTrue hnil =>
      rw [hnil, append_nil] at hlog
      split
      case isTrue hz => exact ⟨hlog, hz, hin⟩
      case isFalse => exact inv_copy config hlog hin
    case isFalse =>
      refine writeStep_ensures (fun hw => ⟨hw ▸ hlog, rfl, hin⟩) fun _ _ hw => ⟨?_, rfl, hin⟩
      rw [hw, append_assoc, take_append_drop, hlog]
  | flush r w =>
    obtain ⟨hlog, rfl, hin⟩ := h
    simp only [poll]
    refine flushStep_ensures (fun hw => ⟨hw.trans hlog, rfl, hin⟩) fun hw => ⟨?_, hin⟩
    rw [take_zero, append_nil]
    exact hw.trans hlog
  | copy c =>
    refine (StreamCopy.pollCopy_ensures h).await id ?_
    rintro k c' ⟨⟨d, hrel, hcons, -⟩, hcached, heof, -⟩
    obtain ⟨hd, hrest⟩ := Take.spec_eof hrel heof
    have hflow := hcons.flow
    rw [hcached, append_nil, hd] at hflow
    exact ⟨hflow, hrest⟩

/-- An upload that will have sent `sent` in the end and leave `rest` of the stream. -/
def Will (sent rest : Bytes) (u : Upload (Tapped ω)) : Prop :=
  ∃ head n input, u.Inv head n input ∧ head ++ input.take n = sent ∧ input.drop n = rest

variable {sent rest : Bytes}

omit [AsyncWrite ω] in
theorem Will.enter (h : u.Will sent rest) : u.enter.Will sent rest := by
  obtain ⟨head, n, input, hu, hsent, hrest⟩ := h
  exact ⟨head, n, input, hu.enter, hsent, hrest⟩

theorem Will.poll (h : u.Will sent rest) :
    (u.poll config).Ensures (Will sent rest) fun _ => Sent sent rest := by
  obtain ⟨head, n, input, hu, rfl, rfl⟩ := h
  exact (poll_ensures config hu).mono (fun hu' => ⟨head, n, input, hu', rfl, rfl⟩) id

omit [AsyncWrite ω] in
/-- What is written so far is the start of what will be. -/
theorem Will.log_le (h : u.Will sent rest) : u.writer.log <+: sent := by
  obtain ⟨head, n, input, hu, rfl, -⟩ := h
  cases u with
  | writeAll cache left r w =>
    obtain ⟨hlog, -, -⟩ := hu
    exact ⟨cache ++ input.take n, by rw [← append_assoc]; exact congrArg (· ++ _) hlog⟩
  | flush r w =>
    obtain ⟨hlog, -, -⟩ := hu
    exact ⟨input.take n, congrArg (· ++ _) hlog⟩
  | copy c =>
    obtain ⟨d, ⟨hin, hlen⟩, hcons, -⟩ := hu
    have hd : input.take n = d ++ c.reader.inner.content.take (n - d.length) := by
      rw [← hin, take_append, take_of_length_le (by omega)]
    rw [hd, ← append_assoc, ← hcons.flow, append_assoc]
    exact prefix_append _ _

end Upload

end Vey.IoExt
