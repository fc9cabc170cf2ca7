import Vey.Schemes.Lines
import Vey.Schemes.Loop

/-! `LineRecvBuf`: lines received into one fixed array.

        buf:  [ consumed | line_start ... line_end | read ahead ... length | free ]

    A line that was read stays the current line until `consume_line` drops it; `consume_left`
    takes raw bytes from the start of the current line on. What a caller can still get out of the
    buffer is `unread`, and every operation is described by what it does to these bytes.

    `LineRecvVec` is the same code over a boxed slice, so its capacity is the parameter here too. -/

namespace Vey.IoExt
open Schemes List

inductive RecvLineError where
  | ioError (e : IoError)
  | ioClosed
  | lineTooLong
  deriving DecidableEq

/-- The filled part of the array (`length` is its length) and the two cursors. -/
structure LineRecvBuf (cap : Nat) where
  buf : Bytes
  lineStart : Nat
  lineEnd : Nat
  fits : buf.length ≤ cap
  start_le : lineStart ≤ lineEnd
  end_le : lineEnd ≤ buf.length
  line_ok : lineStart < lineEnd → IsLine (win buf lineStart lineEnd)

namespace LineRecvBuf

variable {cap : Nat}

/-- A buffer that holds `data`, none of it looked at. -/
def ofData (data : Bytes) (h : data.length ≤ cap) : LineRecvBuf cap where
  buf := data
  lineStart := 0
  lineEnd := 0
  fits := h
  start_le := Nat.le_refl _
  end_le := Nat.zero_le _
  line_ok := fun h => absurd h (Nat.lt_irrefl _)

/-- `default`, `with_capacity` -/
def new : LineRecvBuf cap := ofData [] (Nat.zero_le _)

/-- The line feed that `memchr` found ends a line. -/
theorem isLine_win {buf : Bytes} {start p : Nat} (h : memchr lf (buf.drop start) = some p) :
    IsLine (win buf start (start + p + 1)) := by
  refine ⟨(buf.drop start).take p, (memchr_some h).1, ?_⟩
  rw [win, show start + p + 1 - start = p + 1 by omega, memchr_take h]

variable (b : LineRecvBuf cap)

def getLine : Option Unit × LineRecvBuf cap :=
  if b.lineStart < b.lineEnd then (some (), b)
  else if b.buf.length ≤ b.lineStart then (none, b)
  else
    match h : memchr lf (b.buf.drop b.lineStart) with
    | some p =>
      (some (), { b with
        lineEnd := b.lineStart + p + 1
        start_le := by omega
        end_le := by have := memchr_lt h; rw [List.length_drop] at this; omega
        line_ok := fun _ => isLine_win h })
    | none => (none, b)

/-- The current line; empty when none was found. -/
def line : Bytes := win b.buf b.lineStart b.lineEnd

def consumeLine : LineRecvBuf cap :=
  let b := { b with
    lineStart := b.lineEnd
    start_le := Nat.le_refl _
    line_ok := fun h => absurd h (Nat.lt_irrefl _) }
  match b.getLine with
  | (some (), b) => b
  | (none, b) =>
    -- `copy_within`; nothing is left to move when the cursor is at the end
    .ofData (b.buf.drop b.lineStart) (by
      rw [List.length_drop]; exact Nat.le_trans (Nat.sub_le _ _) b.fits)

def consumeLeft (maxSize : Nat) : Bytes × LineRecvBuf cap :=
  if b.buf.length ≤ b.lineStart then ([], b)
  else if h : b.buf.length - b.lineStart ≤ maxSize then (b.buf.drop b.lineStart, .new)
  else
    (win b.buf b.lineStart (b.lineStart + maxSize),
      { b with
        lineStart := b.lineStart + maxSize
        lineEnd := b.lineStart + maxSize
        start_le := Nat.le_refl _
        end_le := by omega
        line_ok := fun h => absurd h (Nat.lt_irrefl _) })

/-- `read_buf` into the free part. -/
def push (d : Bytes) (h : d.length ≤ cap - b.buf.length) : LineRecvBuf cap :=
  { b with
    buf := b.buf ++ d
    fits := by have := b.fits; rw [List.length_append]; omega
    end_le := by have := b.end_le; rw [List.length_append]; omega
    line_ok := fun hlt => by
      have hs := b.start_le
      have he := b.end_le
      have hw := b.line_ok hlt
      unfold win at hw ⊢
      rwa [List.drop_append_of_le_length (by omega), List.take_append_of_le_length (by
        rw [List.length_drop]; omega)] }

/-! ### What is left in the buffer -/

/-- The bytes from the start of the current line on. -/
def unread : Bytes := b.buf.drop b.lineStart

theorem line_length : b.line.length = b.lineEnd - b.lineStart :=
  win_length b.end_le

/-- The current line is the start of the unread bytes. -/
theorem line_eq : b.line = b.unread.take b.line.length := by
  rw [line_length]; rfl

theorem line_le_unread : b.line <+: b.unread := by
  rw [line_eq]; exact take_prefix _ _

variable {b' : LineRecvBuf cap} {n : Nat} {d : Bytes}

/-- Looking for a line leaves the unread bytes; a line that was found is current, and when none
    was found there is none. -/
theorem getLine_spec {b : LineRecvBuf cap} {r : Option Unit} (h : b.getLine = (r, b')) :
    b'.unread = b.unread ∧ b'.buf = b.buf ∧
      ((r = some () ∧ IsLine b'.line) ∨ (r = none ∧ b' = b ∧ b.line = [] ∧ lf ∉ b.unread)) := by
  unfold getLine at h
  split at h
  case isTrue hlt =>
    obtain ⟨rfl, rfl⟩ := Prod.mk.inj h
    exact ⟨rfl, rfl, .inl ⟨rfl, b.line_ok hlt⟩⟩
  case isFalse hge =>
    have hline : b.line = [] := by
      rw [← length_eq_zero_iff, line_length]; omega
    split at h
    case isTrue hlen =>
      obtain ⟨rfl, rfl⟩ := Prod.mk.inj h
      refine ⟨rfl, rfl, .inr ⟨rfl, rfl, hline, ?_⟩⟩
      rw [unread, drop_eq_nil_of_le hlen]
      exact not_mem_nil
    case isFalse hlen =>
      split at h
      case h_1 p hp =>
        obtain ⟨rfl, rfl⟩ := Prod.mk.inj h
        exact ⟨rfl, rfl, .inl ⟨rfl, isLine_win hp⟩⟩
      case h_2 hp =>
        obtain ⟨rfl, rfl⟩ := Prod.mk.inj h
        exact ⟨rfl, rfl, .inr ⟨rfl, rfl, hline, memchr_none hp⟩⟩

/-- `consume_line` drops the current line. -/
theorem unread_consumeLine : b.consumeLine.unread = b.unread.drop b.line.length := by
  have hstart := b.start_le
  have hdrop : b.unread.drop b.line.length = b.buf.drop b.lineEnd := by
    rw [unread, drop_drop, line_length]
    congr 1
    omega
  rw [hdrop]
  unfold consumeLine
  dsimp only
  split
  case h_1 b' hg | h_2 b' hg => exact (getLine_spec hg).1

/-- With no current line there is nothing to drop. -/
theorem unread_consumeLine_of_nil {b : LineRecvBuf cap} (h : b.line = []) :
    b.consumeLine.unread = b.unread := by
  rw [unread_consumeLine, h]; rfl

/-- `consume_left` takes bytes from the start of the current line, whose text is part of them. -/
theorem consumeLeft_spec {b : LineRecvBuf cap} (h : b.consumeLeft n = (d, b')) :
    d = b.unread.take n ∧ b'.unread = b.unread.drop n ∧ b'.line = [] := by
  unfold consumeLeft at h
  split at h
  case isTrue hlen =>
    obtain ⟨rfl, rfl⟩ := Prod.mk.inj h
    have hnil : b.unread = [] := drop_eq_nil_of_le hlen
    have hline : b.line = [] := prefix_nil.mp (hnil ▸ b.line_le_unread)
    simp [hnil, hline]
  case isFalse hlen =>
    split at h
    case isTrue hle =>
      obtain ⟨rfl, rfl⟩ := Prod.mk.inj h
      have hlen' : b.unread.length ≤ n := by rw [unread, length_drop]; exact hle
      rw [take_of_length_le hlen', drop_eq_nil_of_le hlen']
      exact ⟨rfl, rfl, rfl⟩
    case isFalse hgt =>
      obtain ⟨rfl, rfl⟩ := Prod.mk.inj h
      refine ⟨by rw [win, Nat.add_sub_cancel_left]; rfl, ?_, win_self _ _⟩
      rw [unread, unread, drop_drop]

/-- A block of `n` bytes is what `consume_left` returns and the missing bytes of the stream. -/
theorem consumeLeft_split {b : LineRecvBuf cap} (input : Bytes) (h : b.consumeLeft n = (d, b')) :
    d ++ input.take (n - d.length) = (b.unread ++ input).take n ∧
      b'.unread ++ input.drop (n - d.length) = (b.unread ++ input).drop n := by
  obtain ⟨hd, hb, -⟩ := consumeLeft_spec h
  have hlen : n - d.length = n - b.unread.length := by
    rw [hd, length_take]; omega
  rw [hlen, take_append, drop_append, hd, hb]
  exact ⟨rfl, rfl⟩

theorem unread_push (h : d.length ≤ cap - b.buf.length) : (b.push d h).unread = b.unread ++ d := by
  have hle : b.lineStart ≤ b.buf.length := Nat.le_trans b.start_le b.end_le
  exact drop_append_of_le_length hle

/-! ### Reading a line -/

/-- One step of `read_line`. The source looks for a line once more before it gives up on a full
    buffer or on the end of the stream; nothing came in since the look at the top. -/
def readLine (s : LineRecvBuf cap × Source) :
    Ctrl (LineRecvBuf cap × Source) (Poll (Except RecvLineError Bytes)) :=
  match s.1.getLine with
  | (some (), b) => .ret (.ready (.ok b.line)) (b, s.2)
  | (none, b) =>
    if b.buf.length = cap then .ret (.ready (.error .lineTooLong)) (b, s.2)
    else
      match h : s.2.pollRead (cap - b.buf.length) with
      | (.pending, r) => .ret .pending (b, r)
      | (.ready (.error e), r) => .ret (.ready (.error (.ioError e))) (b, r)
      | (.ready (.ok d), r) =>
        if d = [] then .ret (.ready (.error .ioClosed)) (b, r)
        else .next (b.push d (Source.pollRead_ok h).2.1, r)

/-- Everything the peer has sent or will send and that is not consumed. -/
def pendingOf (s : LineRecvBuf cap × Source) : Bytes := s.1.unread ++ s.2.content

theorem pendingOf_consumeLine (r : Source) :
    pendingOf (b.consumeLine, r) = (pendingOf (b, r)).drop b.line.length := by
  rw [pendingOf, pendingOf, unread_consumeLine,
    drop_append_of_le_length b.line_le_unread.length_le]

/-- Reading moves bytes from the stream into the buffer; a line that is returned is the first line
    of what is left. -/
theorem readLine_ensures {s : LineRecvBuf cap × Source} {u : Bytes} (hs : pendingOf s = u) :
    (readLine s).Ensures (fun t => pendingOf t = u)
      fun l t => pendingOf t = u ∧ IsLine l ∧ l = t.1.line ∧ l <+: u := by
  obtain ⟨b, r⟩ := s
  unfold readLine
  split
  case h_1 b' hg =>
    obtain ⟨hun, -, hline | hnone⟩ := getLine_spec hg
    · have hpend : pendingOf (b', r) = u := by rw [← hs, pendingOf, pendingOf, hun]
      refine ⟨hpend, hline.2, rfl, ?_⟩
      rw [← hpend]
      exact b'.line_le_unread.trans (prefix_append _ _)
    · cases hnone.1
  case h_2 b' hg =>
    obtain ⟨hun, -, -⟩ := getLine_spec hg
    have hpend : ∀ r', r'.content = r.content → pendingOf (b', r') = u := by
      intro r' hr
      rw [← hs, pendingOf, pendingOf, hun, hr]
    split
    · exact trivial
    · split
      case h_1 r' hp => exact hpend r' (Source.pollRead_pending hp)
      case h_2 => exact trivial
      case h_3 d r' hp =>
        split
        · exact trivial
        · show pendingOf (_, r') = u
          rw [← hs, pendingOf, unread_push, append_assoc, (Source.pollRead_ok hp).1, hun]
          rfl

end LineRecvBuf

end Vey.IoExt
