import Vey.IoExt.LineRecv
import Vey.Schemes.Steps

/-! Whole runs of a line receiver: what its users get of the stream.

        stream    | consumed | unread (buffered) | content of the reader |
                             |-- a line --|

    Lines are looked for behind the bytes that were consumed. The buffer is moved to its start when a
    line is consumed and no other is there; it is not moved when raw bytes are taken. -/

namespace Vey.IoExt
open Schemes List LineRecvBuf

/-- A receiver on a stream, with what its user got. -/
structure LineReceiver (cap : Nat) where
  recv : LineRecvBuf cap
  reader : Source
  /-- what was consumed so far -/
  consumed : Bytes := []
  /-- each answer of `read_line`, with what was not consumed when it was given -/
  answers : List (Except RecvLineError Bytes × Bytes) := []

namespace LineReceiver

variable {cap : Nat}

/-- `readLine` is one round of the loop in `read_line`; its future may be dropped between two. -/
inductive Call where
  | readLine
  | consumeLine
  | consumeLeft (maxSize : Nat)

variable (s : LineReceiver cap)

def step : Call → Option (LineReceiver cap)
  | .readLine =>
    match LineRecvBuf.readLine (s.recv, s.reader) with
    | .next (recv, reader) => some { s with recv, reader }
    | .ret .pending (recv, reader) => some { s with recv, reader }
    | .ret (.ready answer) (recv, reader) =>
      some { s with
        recv, reader, answers := (answer, recv.unread ++ reader.content) :: s.answers }
  | .consumeLine => some { s with
      recv := s.recv.consumeLine, consumed := s.consumed ++ s.recv.line }
  | .consumeLeft maxSize => some { s with
      recv := (s.recv.consumeLeft maxSize).2
      consumed := s.consumed ++ (s.recv.consumeLeft maxSize).1 }

/-- A receiver at the start of a stream; `data` of it was read before. -/
def start (data : Bytes) (h : data.length ≤ cap) (reader : Source) : LineReceiver cap where
  recv := .ofData data h
  reader := reader

/-- What is not consumed of the stream. -/
def rest : Bytes := s.recv.unread ++ s.reader.content

/-- An answer is right about what was not consumed: a line is the first one, and a line that is too
    long does not end within the size of the buffer. -/
def Right (cap : Nat) : Except RecvLineError Bytes × Bytes → Prop
  | (.ok line, rest) => IsLine line ∧ line <+: rest
  | (.error .lineTooLong, rest) => cap ≤ rest.length ∧ lf ∉ rest.take cap
  | _ => True

/-- The stream is delivered as lines without loss. -/
structure Delivers (stream : Bytes) : Prop where
  lossless : s.consumed ++ s.rest = stream
  right : ∀ a ∈ s.answers, Right cap a

/-- The buffer is not full, or a line is in it, or the stream has no end of a line in the bytes that
    would fit in place of those consumed. -/
def Roomy : Prop :=
  s.recv.buf.length = cap → lf ∉ s.recv.unread →
    s.recv.lineStart ≤ s.reader.content.length ∧ lf ∉ s.reader.content.take s.recv.lineStart

instance (s : LineReceiver cap) : Decidable s.Roomy :=
  inferInstanceAs (Decidable (_ → _ → _))

/-- `read_line` finds room for a line. -/
def ReadsRoomy : Call → Prop
  | .readLine => s.Roomy
  | _ => True

/-- `read_line` starts at the front of its buffer, or finds space or a line in it. -/
def ReadsFree : Call → Prop
  | .readLine => s.recv.lineStart = 0 ∨ s.recv.buf.length < cap ∨ lf ∈ s.recv.unread
  | _ => True

instance (s : LineReceiver cap) : ∀ c, Decidable (s.ReadsRoomy c)
  | .readLine => inferInstanceAs (Decidable s.Roomy)
  | .consumeLine => .isTrue trivial
  | .consumeLeft _ => .isTrue trivial

/-! ### One call -/

variable {s} {t : LineReceiver cap} {stream : Bytes}

/-- `read_line` gives up: the buffer is full and there is no line in it. -/
def Full (s : LineReceiver cap) : Prop := s.recv.buf.length = cap ∧ lf ∉ s.recv.unread

/-- What one round of `read_line` can do. Nothing is consumed; the buffer takes bytes from the
    reader, or there is an answer. -/
theorem step_readLine (h : s.step .readLine = some t) :
    t.consumed = s.consumed ∧ t.rest = s.rest ∧
      ((¬s.Full ∧ t.answers = s.answers) ∨
        (∃ line, ¬s.Full ∧ t.answers = (.ok line, s.rest) :: s.answers ∧ IsLine line ∧
          line <+: s.rest) ∨
        (s.Full ∧ t.answers = (.error .lineTooLong, s.rest) :: s.answers) ∨
        ∃ e, ¬s.Full ∧ e ≠ .lineTooLong ∧ t.answers = (.error e, s.rest) :: s.answers) := by
  simp only [step, readLine] at h
  cases hg : s.recv.getLine with
  | mk found b =>
    obtain ⟨hun, hbuf, ⟨rfl, hline⟩ | ⟨rfl, rfl, -, hno⟩⟩ := getLine_spec hg
    · simp only [hg] at h
      cases h
      have hrest : b.unread ++ s.reader.content = s.rest := by rw [hun]; rfl
      have hmem : lf ∈ s.recv.unread := by
        obtain ⟨a, -, ha⟩ := hline
        rw [← hun]
        exact b.line_le_unread.subset (ha ▸ mem_append_right _ (mem_singleton_self _))
      refine ⟨rfl, hrest, Or.inr (Or.inl ⟨b.line, fun hf => hf.2 hmem, ?_, hline, ?_⟩)⟩
      · simp only [hrest]
      · rw [← hrest]
        exact b.line_le_unread.trans (prefix_append _ _)
    · simp only [hg] at h
      by_cases hfull : s.recv.buf.length = cap
      · simp only [if_pos hfull] at h
        cases h
        exact ⟨rfl, rfl, Or.inr (Or.inr (Or.inl ⟨⟨hfull, hno⟩, rfl⟩))⟩
      have hopen : ¬s.Full := fun hf => hfull hf.1
      simp only [if_neg hfull] at h
      split at h
      case h_1 heq =>
        split at heq
        case h_1 | h_2 => cases heq
        case h_3 d reader hp =>
          split at heq <;> cases heq
          cases h
          refine ⟨rfl, ?_, Or.inl ⟨hopen, rfl⟩⟩
          rw [rest, unread_push, append_assoc, (Source.pollRead_ok hp).1]
          rfl
      case h_2 heq =>
        split at heq
        case h_1 reader hp =>
          cases heq
          cases h
          refine ⟨rfl, ?_, Or.inl ⟨hopen, rfl⟩⟩
          rw [rest, Source.pollRead_pending hp]
          rfl
        case h_2 => cases heq
        case h_3 => split at heq <;> cases heq
      case h_3 heq =>
        split at heq
        case h_1 => cases heq
        case h_2 e source hp =>
          have hrest : s.recv.unread ++ source.content = s.rest := by
            rw [Source.pollRead_error_content hp]
            rfl
          cases heq
          cases h
          refine ⟨rfl, hrest, Or.inr (Or.inr (Or.inr ⟨.ioError e, hopen, by simp, ?_⟩))⟩
          simp only [hrest]
        case h_3 d source hp =>
          split at heq
          case isFalse => cases heq
          case isTrue hd =>
            have hrest : s.recv.unread ++ source.content = s.rest := by
              have := (Source.pollRead_ok hp).1
              rw [hd, nil_append] at this
              rw [this]
              rfl
            cases heq
            cases h
            refine ⟨rfl, hrest, Or.inr (Or.inr (Or.inr ⟨.ioClosed, hopen, by simp, ?_⟩))⟩
            simp only [hrest]

/-- The report is right when the place of the consumed bytes would not have helped. -/
theorem right_tooLong_iff (hfull : s.Full) : Right cap (.error .lineTooLong, s.rest) ↔ s.Roomy := by
  have hstart : s.recv.lineStart ≤ cap :=
    (s.recv.start_le.trans s.recv.end_le).trans hfull.1.le
  have hlen : s.recv.unread.length = cap - s.recv.lineStart := by
    rw [unread, length_drop, hfull.1]
  have htake : s.rest.take cap = s.recv.unread ++ s.reader.content.take s.recv.lineStart := by
    rw [rest, take_append, take_of_length_le (by omega), hlen, Nat.sub_sub_self hstart]
  have hrest : s.rest.length = cap - s.recv.lineStart + s.reader.content.length := by
    rw [rest, length_append, hlen]
  have hmem : lf ∉ s.rest.take cap ↔ lf ∉ s.reader.content.take s.recv.lineStart := by
    rw [htake, mem_append, not_or, and_iff_right hfull.2]
  have hroom : s.Roomy ↔ s.recv.lineStart ≤ s.reader.content.length ∧
      lf ∉ s.reader.content.take s.recv.lineStart :=
    ⟨fun h => h hfull.1 hfull.2, fun h _ _ => h⟩
  rw [hroom, ← hmem]
  refine and_congr_left fun _ => ?_
  rw [hrest]
  omega

theorem roomy_of_not_full (h : ¬s.Full) : s.Roomy := fun h1 h2 => absurd ⟨h1, h2⟩ h

theorem ReadsFree.roomy {c : Call} (h : s.ReadsFree c) : s.ReadsRoomy c := by
  cases c with
  | readLine =>
    rcases h with hzero | hspace | hline
    · intro _ _
      simp [hzero]
    · exact fun hfull => absurd hfull hspace.ne
    · exact fun _ hno => absurd hline hno
  | consumeLine | consumeLeft => exact trivial

/-! ### Whole runs -/

theorem lossless_step {e : Call} (h : s.consumed ++ s.rest = stream) (hstep : s.step e = some t) :
    t.consumed ++ t.rest = stream := by
  cases e with
  | readLine =>
    obtain ⟨hconsumed, hrest, -⟩ := step_readLine hstep
    rw [hconsumed, hrest, h]
  | consumeLine =>
    cases hstep
    have hline := take_append_drop s.recv.line.length s.recv.unread
    rw [← line_eq] at hline
    simp only [rest] at h ⊢
    rw [unread_consumeLine, append_assoc, ← append_assoc s.recv.line, hline, h]
  | consumeLeft maxSize =>
    cases hc : s.recv.consumeLeft maxSize with | mk d b
    obtain ⟨hd, hb, -⟩ := consumeLeft_spec hc
    simp only [step, hc] at hstep
    cases hstep
    simp only [rest] at h ⊢
    rw [hd, hb, append_assoc, ← append_assoc (s.recv.unread.take _),
      take_append_drop, h]

theorem right_step {e : Call} (hstep : s.step e = some t) :
    (∀ a ∈ t.answers, Right cap a) ↔ (∀ a ∈ s.answers, Right cap a) ∧ s.ReadsRoomy e := by
  cases e with
  | readLine =>
    obtain ⟨-, -, ⟨hopen, ha⟩ | ⟨line, hopen, ha, hline, hfirst⟩ | ⟨hfull, ha⟩ | ⟨e, hopen, he, ha⟩⟩ :=
      step_readLine hstep
    · rw [ha]
      exact (and_iff_left (roomy_of_not_full hopen)).symm
    · rw [ha, forall_mem_cons, and_comm]
      exact and_congr_right fun _ => ⟨fun _ => roomy_of_not_full hopen, fun _ => ⟨hline, hfirst⟩⟩
    · rw [ha, forall_mem_cons, and_comm]
      exact and_congr_right fun _ => right_tooLong_iff hfull
    · rw [ha, forall_mem_cons, and_comm]
      refine and_congr_right fun _ => ⟨fun _ => roomy_of_not_full hopen, fun _ => ?_⟩
      cases e with
      | lineTooLong => exact absurd rfl he
      | ioError _ => trivial
      | ioClosed => trivial
  | consumeLine | consumeLeft =>
    cases hstep
    exact (and_iff_left trivial).symm

/-- Whatever is called and however the stream is cut: it is delivered as lines without loss just when
    `read_line` finds room, as it does on any buffer but a full one that is consumed in part. -/
theorem delivers_iff {data : Bytes} (hfits : data.length ≤ cap) (reader : Source)
    {calls : List Call} (hrun : run step (start data hfits reader) calls = some s) :
    (s.Delivers (data ++ reader.content) ↔ Meets step ReadsRoomy (start data hfits reader) calls) ∧
      (Meets step ReadsFree (start data hfits reader) calls → s.Delivers (data ++ reader.content)) := by
  have hstart : (start data hfits reader).consumed ++ (start data hfits reader).rest =
      data ++ reader.content := rfl
  have hlossless := run_inv (fun hI hs => lossless_step hI hs) hstart hrun
  have hiff := Meets.iff_of_step (C := ReadsRoomy) (I := fun _ => True)
    (G := fun s : LineReceiver cap => ∀ a ∈ s.answers, Right cap a) (fun _ _ => trivial)
    (fun _ hs => right_step hs) trivial hrun
  have hnone : ∀ a ∈ (start data hfits reader).answers, Right cap a :=
    fun _ ha => absurd ha not_mem_nil
  have hright := hiff.trans (and_iff_right hnone)
  refine ⟨⟨fun h => hright.mp h.right, fun h => ⟨hlossless, hright.mpr h⟩⟩, fun h => ?_⟩
  exact ⟨hlossless, hright.mpr (h.mono ReadsFree.roomy)⟩

/-- The lines `a` and `bcdefg` and the start of a third: of the first two only the last line feed does
    not fit into a buffer of eight bytes. -/
def twoLines : LineReceiver 8 :=
  start [] (Nat.zero_le _) ⟨[97, 10, 98, 99, 100, 101, 102, 103, 10, 104, 105], [], by decide⟩

/-- When the first line is taken as raw bytes, the second is said to be too long. -/
theorem twoLines_consumeLeft :
    ∃ s, run step twoLines [.readLine, .readLine, .consumeLeft 2, .readLine] = some s ∧
      s.answers.head? = some (.error .lineTooLong, [98, 99, 100, 101, 102, 103, 10, 104, 105]) ∧
      ∀ stream, ¬s.Delivers stream := by
  refine exists_run (by decide +kernel) fun s _ hs => ⟨hs, fun stream h => ?_⟩
  exact absurd (h.right _ (mem_of_mem_head? hs)).2 (by decide)

/-- When it is consumed as a line, both are read. -/
theorem twoLines_consumeLine :
    ∃ s, run step twoLines [.readLine, .readLine, .consumeLine, .readLine, .readLine] = some s ∧
      s.answers.head? = some (.ok [98, 99, 100, 101, 102, 103, 10],
        [98, 99, 100, 101, 102, 103, 10, 104, 105]) ∧
      s.Delivers [97, 10, 98, 99, 100, 101, 102, 103, 10, 104, 105] := by
  have hmeets : Meets step ReadsRoomy twoLines
      [.readLine, .readLine, .consumeLine, .readLine, .readLine] := by decide +kernel
  refine exists_run (by decide +kernel) fun s hrun hs => ⟨hs, ?_⟩
  exact (delivers_iff (Nat.zero_le _) _ hrun).1.mpr hmeets

end LineReceiver

end Vey.IoExt
