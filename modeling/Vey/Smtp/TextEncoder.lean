import Vey.IoExt.StreamCopy
import Vey.Schemes.DotText
import Vey.Schemes.Segments

/-! `TextDataEncodeTransfer`: send a text as the data of a mail.

    A poll reads into a buffer, writes the buffer line by line, with a dot in front of a line that
    starts with one, and at the end of the text appends the line that ends the mail:

        top --read--> writeBuf --lines--> top ... --> append . CR LF --> flushEnd --> Ready

    Every `Pending` leaves the poll, and the next one starts at the top again. A flush that stalls
    behind the last byte is not resumed: the next poll starts with a write of no bytes. -/

namespace Vey.Smtp
open Schemes IoExt List FairWrite

/-- `buf` is the part of a buffer of `size` bytes that reads have filled, up to `r_off`. -/
structure EncodeCopyBuffer where
  readDone : Bool := false
  size : Nat
  buf : Bytes := []
  yieldSize : Nat
  wOff : Nat := 0
  total : Nat := 0
  needFlush : Bool := false
  active : Bool := false
  lineEnd : Nat := 0
  checkLine : Bool := true
  writeDot : Bool := false
  readEndOk : Bool := true
  writeAppendLine : Bool := false

namespace EncodeCopyBuffer

def new (config : StreamCopyConfig) : EncodeCopyBuffer where
  size := config.bufferSize
  yieldSize := config.yieldSize

variable (b : EncodeCopyBuffer)

def rOff : Nat := b.buf.length

/-- MIN_BUF_SIZE -/
def minBufSize : Nat := 16

def pollFillBuf (reader : Source) : IoPoll Unit × EncodeCopyBuffer × Source :=
  if b.size ≤ b.rOff + minBufSize then (.ready (.ok ()), b, reader)
  else
    match reader.pollRead (b.size - b.rOff) with
    | (.pending, reader) => (.pending, b, reader)
    | (.ready (.error e), reader) => (.ready (.error e), b, reader)
    | (.ready (.ok d), reader) =>
      if d = [] then (.ready (.ok ()), { b with readDone := true }, reader)
      else
        (.ready (.ok ()), { b with
          buf := b.buf ++ d
          readEndOk := d.getLast? == some lf
          active := true }, reader)

section

variable {ω : Type} [AsyncWrite ω]

/-- Write some bytes; `wrote` is the buffer once they are accepted. -/
def pollWriteBytes (writer : ω) (bytes : Bytes)
    (wrote : Nat → EncodeCopyBuffer) : CopyPoll Nat × EncodeCopyBuffer × ω :=
  match pollWrite writer bytes with
  | (.pending, writer) => (.pending, b, writer)
  | (.ready (.error e), writer) => (.ready (.error (.writeFailed e)), b, writer)
  | (.ready (.ok 0), writer) =>
    (.ready (.error (.writeFailed ⟨.writeZero, "write zero byte into writer"⟩)), b, writer)
  | (.ready (.ok (n + 1)), writer) =>
    (.ready (.ok (n + 1)), { wrote (n + 1) with
      total := b.total + (n + 1)
      needFlush := true
      active := true }, writer)

def pollWriteDot (writer : ω) : CopyPoll Nat × EncodeCopyBuffer × ω :=
  b.pollWriteBytes writer [46] fun _ => b

def pollWriteLine (writer : ω) : CopyPoll Nat × EncodeCopyBuffer × ω :=
  b.pollWriteBytes writer (win b.buf b.wOff b.lineEnd) fun n => { b with wOff := b.wOff + n }

end

/-- Find the end of the line that is written next, or as much of it as was read. -/
def findLine : EncodeCopyBuffer :=
  if b.lineEnd ≤ b.wOff then
    { b with lineEnd := match memchr lf (b.buf.drop b.wOff) with
      | some p => b.wOff + p + 1
      | none => b.rOff }
  else b

/-- A short read that ends inside a line is not a new line. -/
def afterLine : EncodeCopyBuffer :=
  if b.lineEnd ≤ b.wOff ∧ b.buf[b.lineEnd - 1]? = some lf then { b with checkLine := true } else b

/-- An empty buffer is filled from its front again. -/
def reset : EncodeCopyBuffer :=
  if b.wOff = b.rOff then { b with wOff := 0, buf := [] } else b

/-- The bytes that end the mail take the place of the text. -/
def appendLine : EncodeCopyBuffer :=
  let line := if b.readEndOk then endLine else [cr, lf] ++ endLine
  { b with wOff := 0, buf := line, lineEnd := line.length, writeAppendLine := true }

end EncodeCopyBuffer

/-- Where a poll is. -/
inductive EncodeAt where
  | top
  | writeBuf
  | flushEnd
  deriving DecidableEq

structure TextDataEncodeTransfer (ω : Type) where
  reader : Source
  writer : ω
  buf : EncodeCopyBuffer
  pc : EncodeAt := .top
  copyThisRound : Nat := 0
  nw : Nat := 0

namespace TextDataEncodeTransfer

abbrev Step (ω : Type) := Ctrl (TextDataEncodeTransfer ω) (CopyPoll Nat)

variable {ω : Type} [AsyncWrite ω]

def new (reader : Source) (writer : ω) (config : StreamCopyConfig) : TextDataEncodeTransfer ω where
  reader := reader
  writer := writer
  buf := .new config

variable (s : TextDataEncodeTransfer ω)

/-- The line that ends the mail. -/
def stepAppend : Step ω :=
  match s.buf.pollWriteLine s.writer with
  | (.pending, b, w) => .ret .pending { s with buf := b, writer := w }
  | (.ready (.error e), b, w) => .ret (.ready (.error e)) { s with buf := b, writer := w }
  | (.ready (.ok n), b, w) =>
    let s := { s with buf := b, writer := w, copyThisRound := s.copyThisRound + n }
    if s.buf.rOff ≤ s.buf.wOff then
      if s.buf.needFlush then .next { s with pc := .flushEnd }
      else .ret (.ready (.ok s.buf.total)) s
    else .next s

/-- Nothing to write, and nothing to read yet. -/
def idle : Step ω :=
  if s.buf.needFlush then
    match pollFlush s.writer with
    | (.pending, w) => .ret .pending { s with writer := w }
    | (.ready (.error e), w) => .ret (.ready (.error (.writeFailed e))) { s with writer := w }
    | (.ready (.ok ()), w) =>
      .ret .pending { s with writer := w, buf := { s.buf with needFlush := false } }
  else .ret .pending s

/-- Read, and go on to write; with nothing to write the poll waits for the reader. -/
def fill : Step ω :=
  match s.buf.pollFillBuf s.reader with
  | (.ready (.ok ()), b, r) => .next { s with buf := b, reader := r, pc := .writeBuf, nw := 0 }
  | (.ready (.error e), b, r) =>
    .ret (.ready (.error (.readFailed e))) { s with buf := b, reader := r }
  | (.pending, b, r) =>
    if b.rOff ≤ b.wOff then { s with buf := b, reader := r }.idle
    else .next { s with buf := b, reader := r, pc := .writeBuf, nw := 0 }

/-- The write of a line, in `poll_write_buf`. -/
def writeLine : Step ω :=
  match s.buf.pollWriteLine s.writer with
  | (.pending, b, w) => .ret .pending { s with buf := b, writer := w }
  | (.ready (.error e), b, w) => .ret (.ready (.error e)) { s with buf := b, writer := w }
  | (.ready (.ok n), b, w) => .next { s with buf := b.afterLine, writer := w, nw := s.nw + n }

/-- A line that starts with a dot gets another one. -/
def checkStart : Step ω :=
  if s.buf.checkLine then
    if s.buf.buf[s.buf.wOff]? = some 46 then
      .next { s with buf := { s.buf with checkLine := false, writeDot := true } }
    else { s with buf := { s.buf with checkLine := false } }.writeLine
  else s.writeLine

/-- One round of the loop of `poll_write_buf`, while the buffer is not empty. -/
def stepLine : Step ω :=
  if s.buf.writeDot then
    match s.buf.pollWriteDot s.writer with
    | (.pending, b, w) => .ret .pending { s with buf := b, writer := w }
    | (.ready (.error e), b, w) => .ret (.ready (.error e)) { s with buf := b, writer := w }
    | (.ready (.ok n), b, w) =>
      .next { s with buf := { b with writeDot := false }, writer := w, nw := s.nw + n }
  else { s with buf := s.buf.findLine }.checkStart

/-- Behind the loop of `poll_write_buf`. -/
def stepWritten : Step ω :=
  let b := if s.buf.lineEnd = s.buf.rOff then { s.buf with lineEnd := 0 } else s.buf
  let s := { s with buf := b, copyThisRound := s.copyThisRound + s.nw, nw := 0, pc := .top }
  if s.buf.yieldSize ≤ s.copyThisRound then .ret .pending s
  else if s.buf.readDone && s.buf.wOff == s.buf.rOff then .next { s with buf := s.buf.appendLine }
  else .next s

def step : Step ω :=
  match s.pc with
  | .top =>
    if s.buf.writeAppendLine then s.stepAppend
    else if s.buf.readDone then .next { s with pc := .writeBuf, nw := 0 }
    else { s with buf := s.buf.reset }.fill
  | .writeBuf => if s.buf.wOff < s.buf.rOff then s.stepLine else s.stepWritten
  | .flushEnd =>
    match pollFlush s.writer with
    | (.pending, w) => .ret .pending { s with writer := w }
    | (.ready (.error e), w) => .ret (.ready (.error (.writeFailed e))) { s with writer := w }
    | (.ready (.ok ()), w) => .ret (.ready (.ok s.buf.total)) { s with writer := w }

/-- `poll_copy`; its local variables live for one poll. -/
def pollCopy : Future (TextDataEncodeTransfer ω) (Except StreamCopyError Nat) where
  enter s := { s with pc := .top, copyThisRound := 0, nw := 0 }
  body := step

end TextDataEncodeTransfer

/-! ### Lines in the buffer -/

namespace EncodeCopyBuffer

variable {b : EncodeCopyBuffer}

/-- `line_end` is behind what is written, and no line ends before it. -/
structure InLine (buf : Bytes) (wOff lineEnd : Nat) : Prop where
  le : wOff ≤ lineEnd
  le_rOff : lineEnd ≤ buf.length
  inside : lf ∉ (win buf wOff lineEnd).dropLast

theorem findLine_spec (hlt : b.wOff < b.rOff) (h : b.lineEnd = 0 ∨ InLine b.buf b.wOff b.lineEnd) :
    ∃ e, b.findLine = { b with lineEnd := e } ∧ b.wOff < e ∧ InLine b.buf b.wOff e := by
  unfold findLine
  split
  case isTrue =>
    refine ⟨_, rfl, ?_⟩
    cases hp : memchr lf (b.buf.drop b.wOff) with
    | some p =>
      have hle := memchr_lt hp
      rw [length_drop] at hle
      refine ⟨by dsimp only; omega, by dsimp only; omega, by dsimp only; omega, ?_⟩
      rw [win, show b.wOff + p + 1 - b.wOff = p + 1 by omega, memchr_take hp, dropLast_concat]
      exact (memchr_some hp).1
    | none =>
      refine ⟨hlt, Nat.le_of_lt hlt, Nat.le_refl _, ?_⟩
      intro hmem
      exact memchr_none hp (take_subset _ _ (dropLast_subset _ hmem))
  case isFalse hgt =>
    exact ⟨b.lineEnd, rfl, by omega, h.resolve_left (by omega)⟩

/-- The bytes of a line that are written next, and whether they end it. -/
theorem InLine.take (h : InLine b.buf b.wOff b.lineEnd) {n : Nat} (hn : 0 < n)
    (hle : n ≤ b.lineEnd - b.wOff) :
    stuffFrom false ((win b.buf b.wOff b.lineEnd).take n) = (win b.buf b.wOff b.lineEnd).take n ∧
    startsLine false ((win b.buf b.wOff b.lineEnd).take n) =
      decide (b.lineEnd ≤ b.wOff + n ∧ b.buf[b.lineEnd - 1]? = some lf) := by
  have hlen : (win b.buf b.wOff b.lineEnd).length = b.lineEnd - b.wOff := win_length h.le_rOff
  have hle' := h.le
  by_cases hall : b.lineEnd ≤ b.wOff + n
  · have htake : (win b.buf b.wOff b.lineEnd).take n = win b.buf b.wOff b.lineEnd :=
      take_of_length_le (by omega)
    rw [htake]
    refine ⟨stuffFrom_toEnd h.inside, ?_⟩
    have hlast : (win b.buf b.wOff b.lineEnd).getLast? = b.buf[b.lineEnd - 1]? := by
      rw [getLast?_eq_getElem?, hlen, win, getElem?_take_of_lt (by omega),
        getElem?_drop]
      congr 1
      omega
    rw [startsLine, hlast]
    have hsome : b.lineEnd - 1 < b.buf.length := by have := h.le_rOff; omega
    rw [getElem?_eq_getElem hsome]
    simp [hall, Bool.beq_eq_decide_eq]
  · have hnot : lf ∉ (win b.buf b.wOff b.lineEnd).take n := by
      intro hmem
      refine h.inside ?_
      rw [dropLast_eq_take, hlen]
      rw [show n = min n (b.lineEnd - b.wOff - 1) by omega, ← take_take] at hmem
      exact take_subset _ _ hmem
    exact ⟨stuffFrom_inside hnot, by rw [startsLine_inside hnot]; simp [hall]⟩

/-- What is left of a line. -/
theorem InLine.rest {buf : Bytes} {wOff lineEnd : Nat} (h : InLine buf wOff lineEnd) (n : Nat) :
    lf ∉ (win buf (wOff + n) lineEnd).dropLast := by
  intro hmem
  rw [win_drop, dropLast_eq_take, length_drop, take_drop] at hmem
  rcases Nat.lt_or_ge n (win buf wOff lineEnd).length with hlt | hge
  · rw [show n + ((win buf wOff lineEnd).length - n - 1) = (win buf wOff lineEnd).length - 1 by omega,
      ← dropLast_eq_take] at hmem
    exact h.inside (drop_subset _ _ hmem)
  · rw [Nat.sub_eq_zero_of_le hge, drop_of_length_le (by simp)] at hmem
    cases hmem

theorem afterLine_eq : b.afterLine = { b with
    checkLine := decide (b.lineEnd ≤ b.wOff ∧ b.buf[b.lineEnd - 1]? = some lf) || b.checkLine } := by
  unfold afterLine
  split
  case isTrue h => simp [h]
  case isFalse h => rw [decide_eq_false h, Bool.false_or]

end EncodeCopyBuffer

open EncodeCopyBuffer (InLine afterLine_eq appendLine findLine_spec minBufSize pollFillBuf
  pollWriteDot pollWriteLine rOff)

/-! ### What is left to write -/

namespace TextDataEncodeTransfer

variable {ω : Type}

/-- The bytes that are still to be written. -/
def left (s : TextDataEncodeTransfer ω) : Bytes :=
  if s.buf.writeAppendLine then s.buf.buf.drop s.buf.wOff
  else (if s.buf.writeDot then [46] else []) ++
    stuffFrom s.buf.checkLine (s.buf.buf.drop s.buf.wOff ++ s.reader.content) ++
    if startsLine s.buf.readEndOk s.reader.content then endLine else [cr, lf] ++ endLine

/-- The text `d` is being sent behind `sent`. -/
structure Inv (sent d : Bytes) (s : TextDataEncodeTransfer (Tapped ω)) : Prop where
  wire : s.writer.log ++ s.left = sent ++ dotEncode d
  total : s.writer.log.length = sent.length + s.buf.total
  room : EncodeCopyBuffer.minBufSize < s.buf.size
  yields : 0 < s.buf.yieldSize
  clean : s.reader.Unfailing
  le : s.buf.wOff ≤ s.buf.rOff
  done : s.buf.readDone = true → s.reader.content = []
  line : s.buf.writeAppendLine = false → s.buf.lineEnd = 0 ∨
    EncodeCopyBuffer.InLine s.buf.buf s.buf.wOff s.buf.lineEnd
  fresh : s.pc = .top → s.buf.writeAppendLine = false → s.buf.wOff = s.buf.rOff →
    s.buf.lineEnd = 0
  dot : s.buf.writeDot = true → s.buf.writeAppendLine = false ∧ s.buf.checkLine = false ∧
    s.buf.wOff < s.buf.rOff
  append : s.buf.writeAppendLine = true → s.buf.lineEnd = s.buf.rOff ∧
    (s.pc = .top ∧ s.buf.wOff < s.buf.rOff ∨ s.pc = .flushEnd ∧ s.buf.wOff = s.buf.rOff)
  flush : s.pc = .flushEnd → s.buf.writeAppendLine = true

variable {sent d : Bytes} {s t : TextDataEncodeTransfer (Tapped ω)}

theorem inv_new {reader : Source} {writer : Tapped ω} {config : StreamCopyConfig}
    (hconfig : config.Built) (hreader : reader.Unfailing) :
    (new reader writer config).Inv writer.log reader.content where
  wire := rfl
  total := rfl
  room := (show minBufSize < minimalCopyBufferSize by decide).trans_le
    hconfig.minimal.1
  yields := (show 0 < minimalCopyYieldSize by decide).trans_le hconfig.minimal.2
  clean := hreader
  le := Nat.le_refl _
  done := nofun
  line := fun _ => .inl rfl
  fresh := fun _ _ _ => rfl
  dot := nofun
  append := nofun
  flush := nofun

section
variable (h : s.Inv sent d)
include h

/-- Only the last line is written behind the buffer. -/
theorem Inv.not_append (hpc : s.pc = .writeBuf) :
    s.buf.writeAppendLine = false := by
  cases happ : s.buf.writeAppendLine with
  | false => rfl
  | true =>
    rcases (h.append happ).2 with ⟨htop, -⟩ | ⟨hflush, -⟩
    · rw [hpc] at htop; cases htop
    · rw [hpc] at hflush; cases hflush

/-- A writer that accepted nothing. -/
theorem Inv.stall {w : Tapped ω} (hlog : w.log = s.writer.log)
    (needFlush : Bool) :
    { s with writer := w, buf := { s.buf with needFlush := needFlush } }.Inv sent d :=
  { h with
    wire := by rw [← h.wire, ← hlog]; rfl
    total := by rw [← h.total, ← hlog] }

/-- A line that was looked for is found. -/
theorem Inv.found (hpc : s.pc = .writeBuf) {e : Nat}
    (hline : InLine s.buf.buf s.buf.wOff e) :
    { s with buf := { s.buf with lineEnd := e } }.Inv sent d :=
  { h with
    line := fun _ => .inr hline
    fresh := by simp [hpc]
    append := by simp [h.not_append hpc] }

/-- The start of a line is checked for a dot. -/
theorem Inv.checked (hpc : s.pc = .writeBuf) (hlt : s.buf.wOff < s.buf.rOff)
    (hdot : s.buf.writeDot = false) (hcheck : s.buf.checkLine = true) (dot : Bool)
    (hfirst : dot = decide (s.buf.buf[s.buf.wOff]? = some 46))
    (ht : t = { s with buf := { s.buf with checkLine := false, writeDot := dot } }) :
    t.Inv sent d ∧ t.left = s.left := by
  have happ := h.not_append hpc
  have hleft : t.left = s.left := by
    have hhead : (s.buf.buf.drop s.buf.wOff ++ s.reader.content).head? = s.buf.buf[s.buf.wOff]? := by
      have hne : s.buf.buf.drop s.buf.wOff ≠ [] := by
        intro hnil
        rw [drop_eq_nil_iff] at hnil
        exact absurd hlt (Nat.not_lt.mpr hnil)
      rw [head?_append_of_ne_nil _ hne, head?_drop]
    simp only [ht, left, happ, hdot, hcheck, hfirst, Bool.false_eq_true, if_false, nil_append,
      stuffFrom_start, hhead, decide_eq_true_eq]
  subst ht
  exact ⟨{ h with wire := hleft ▸ h.wire, dot := fun _ => ⟨happ, rfl, hlt⟩ }, hleft⟩

/-- An empty buffer starts at its front. -/
theorem Inv.reset (hpc : s.pc = .top) (happ : s.buf.writeAppendLine = false)
    (heq : s.buf.wOff = s.buf.rOff)
    (ht : t = { s with buf := { s.buf with wOff := 0, buf := [] } }) :
    t.Inv sent d ∧ t.left = s.left := by
  have hleft : t.left = s.left := by
    have hdrop : s.buf.buf.drop s.buf.wOff = [] := by rw [heq]; exact drop_length
    simp only [ht, left, happ, hdrop, drop_nil, Bool.false_eq_true, if_false]
  have hfresh := h.fresh hpc happ heq
  subst ht
  exact ⟨{ h with
    wire := hleft ▸ h.wire
    le := Nat.le_refl _
    line := fun _ => .inl hfresh
    fresh := fun _ _ _ => hfresh
    dot := fun hd => absurd (h.dot hd).2.2 (by omega)
    append := by simp [happ] }, hleft⟩

/-- From the top to the loop of `poll_write_buf`. -/
theorem Inv.toWriteBuf (happ : s.buf.writeAppendLine = false) :
    { s with pc := .writeBuf, nw := 0 }.Inv sent d :=
  { h with fresh := nofun, append := by simp [happ], flush := nofun }

/-- A stream that brought nothing. -/
theorem Inv.readNothing {r : Source} (hclean : r.Unfailing)
    (hcont : r.content = s.reader.content) (done : Bool) (hdone : done = true → r.content = []) :
    { s with reader := r, buf := { s.buf with readDone := done } }.Inv sent d := by
  refine { h with wire := ?_, clean := hclean, done := hdone }
  have hwire := h.wire
  simp only [left] at hwire ⊢
  rwa [hcont]

/-- Bytes that were read go behind the others. -/
theorem Inv.readSome (happ : s.buf.writeAppendLine = false)
    (hdone : s.buf.readDone = false) {r : Source} {x : Bytes} (hx : x ≠ [])
    (hclean : r.Unfailing) (hcont : x ++ r.content = s.reader.content) (active : Bool)
    (ht : t = { s with
      reader := r
      buf := { s.buf with
        buf := s.buf.buf ++ x, readEndOk := x.getLast? == some lf, active := active } }) :
    t.Inv sent d ∧ t.left = s.left := by
  have hlen : s.buf.wOff ≤ s.buf.buf.length := h.le
  have hstart : startsLine s.buf.readEndOk s.reader.content =
      startsLine (x.getLast? == some lf) r.content := by
    rw [← hcont, startsLine_append]
    congr 1
    rcases eq_nil_or_concat x with rfl | ⟨y, z, rfl⟩
    · exact absurd rfl hx
    · rw [concat_eq_append, startsLine_concat]
      simp
  have hleft : t.left = s.left := by
    simp only [ht, left, happ, Bool.false_eq_true, if_false]
    rw [hstart, ← hcont, drop_append_of_le_length hlen, append_assoc (drop _ _)]
  subst ht
  refine ⟨⟨hleft ▸ h.wire, h.total, h.room, h.yields, hclean, ?_, by simp [hdone], ?_, ?_, ?_,
    by simp [happ], h.flush⟩, hleft⟩
  · refine Nat.le_trans h.le ?_
    simp [rOff]
  · intro _
    refine (h.line happ).imp id fun hline => ⟨hline.le, ?_, ?_⟩
    · have := hline.le_rOff
      rw [length_append]
      exact this.trans (Nat.le_add_right _ _)
    · have hwin : win (s.buf.buf ++ x) s.buf.wOff s.buf.lineEnd =
          win s.buf.buf s.buf.wOff s.buf.lineEnd := by
        have := hline.le_rOff
        rw [win, win, drop_append_of_le_length hlen, take_append_of_le_length]
        rw [length_drop]
        omega
      rw [hwin]
      exact hline.inside
  · intro _ _ heq
    have hpos := length_pos_iff.mpr hx
    simp only [rOff, length_append] at heq
    omega
  · intro hd
    obtain ⟨ha, hc, hlt⟩ := h.dot hd
    refine ⟨ha, hc, hlt.trans_le ?_⟩
    simp [rOff]

end

/-! ### Writes to a fair writer -/

end TextDataEncodeTransfer

variable {ω : Type} [FairWrite ω]

/-- A write stalls, or takes a part of what it is given. -/
theorem EncodeCopyBuffer.pollWriteBytes_fair (b : EncodeCopyBuffer) (writer : Tapped ω)
    {bytes : Bytes} (hne : bytes ≠ []) (wrote : Nat → EncodeCopyBuffer) :
    (∃ w, b.pollWriteBytes writer bytes wrote = (.pending, b, w) ∧ w.log = writer.log ∧
      stalls w < stalls writer) ∨
    ∃ n w, 0 < n ∧ n ≤ bytes.length ∧ w.log = writer.log ++ bytes.take n ∧
      b.pollWriteBytes writer bytes wrote = (.ready (.ok n),
        { wrote n with total := b.total + n, needFlush := true, active := true }, w) := by
  unfold pollWriteBytes
  rcases hp : pollWrite writer bytes with ⟨r, w⟩
  rcases pollWrite_fair hne hp with ⟨rfl, hless⟩ | ⟨n, rfl⟩
  · exact .inl ⟨w, rfl, tapped_write_pending hp, hless⟩
  · exact .inr ⟨n + 1, w, Nat.succ_pos n, AsyncWrite.pollWrite_le hp, tapped_pollWrite hp, rfl⟩

namespace TextDataEncodeTransfer

/-- What is left to read, with the two turns that a transfer takes at its end. -/
def unread (reader : Source) (b : EncodeCopyBuffer) : Nat :=
  reader.events.length + (if b.readDone then 0 else 1) + if b.writeAppendLine then 0 else 1

/-- How many steps may be next that neither read nor write. -/
def phase (pc : EncodeAt) (b : EncodeCopyBuffer) : Nat :=
  match pc with
  | .top => if b.wOff < b.rOff then 3 else if b.readDone then 4 else 2
  | .writeBuf => if b.wOff < b.rOff then if b.checkLine then 2 else 1 else 3
  | .flushEnd => 0

def effort (s : TextDataEncodeTransfer (Tapped ω)) : Effort where
  work := 2 * s.left.length + s.copyThisRound + s.nw + unread s.reader s.buf
  stalls := FairWrite.stalls s.writer
  phase := phase s.pc s.buf

variable {sent d : Bytes} {s t : TextDataEncodeTransfer (Tapped ω)}

/-- Bytes that are written count twice as work and once as progress. -/
theorem work_lt {n : Nat} (hn : 0 < n) (hleft : s.left.length = t.left.length + n)
    (hcopy : t.copyThisRound + t.nw = s.copyThisRound + s.nw + n)
    (hunread : unread t.reader t.buf = unread s.reader s.buf) : t.effort.work < s.effort.work := by
  simp only [effort]
  omega

theorem work_lt_of_read (hleft : t.left = s.left)
    (hcopy : t.copyThisRound + t.nw ≤ s.copyThisRound + s.nw)
    (hunread : unread t.reader t.buf < unread s.reader s.buf) : t.effort.work < s.effort.work := by
  simp only [effort, hleft]
  omega

theorem work_le (hleft : t.left = s.left) (hcopy : t.copyThisRound + t.nw ≤ s.copyThisRound + s.nw)
    (hunread : unread t.reader t.buf = unread s.reader s.buf) : t.effort.work ≤ s.effort.work := by
  simp only [effort, hleft]
  omega

/-- Between two polls. -/
theorem Inv.enter (h : s.Inv sent d) (hpc : s.pc ≠ .flushEnd)
    (hfresh : s.buf.writeAppendLine = false → s.buf.wOff = s.buf.rOff → s.buf.lineEnd = 0) :
    (pollCopy.enter s).Inv sent d := by
  refine { h with fresh := fun _ => hfresh, append := fun happ => ?_, flush := nofun }
  obtain ⟨hend, ⟨-, hlt⟩ | ⟨hflush, -⟩⟩ := h.append happ
  · exact ⟨hend, .inl ⟨rfl, hlt⟩⟩
  · exact absurd hflush hpc

/-- What a write does: it stalls, or some of the work is done. -/
def Writes (sent d : Bytes) (s : TextDataEncodeTransfer (Tapped ω)) :
    Step (Tapped ω) → Prop
  | .next t => t.Inv sent d ∧ t.effort.work < s.effort.work
  | .ret .pending t => (pollCopy.enter t).Inv sent d ∧
      (pollCopy.enter t).effort.work ≤ s.effort.work ∧
      (pollCopy.enter t).effort.stalls < s.effort.stalls
  | .ret (.ready _) _ => False

theorem Writes.advances {Q : Nat → TextDataEncodeTransfer (Tapped ω) → Prop}
    {c : Step (Tapped ω)}
    (h : Writes sent d s c) (hwork : s.effort.work ≤ t.effort.work)
    (hstalls : s.effort.stalls = t.effort.stalls) :
    pollCopy.Advances (Inv sent d) Q effort t c := by
  rcases c with u | ⟨_ | _, u⟩
  · exact ⟨h.1, .inl (h.2.trans_le hwork)⟩
  · exact ⟨h.1, .inr ⟨h.2.1.trans hwork, .inl (hstalls ▸ h.2.2)⟩⟩
  · exact h.elim

section

variable (h : s.Inv sent d)

include h

/-- A write that stalls leaves all the work to the next poll. -/
theorem Inv.writesPending (hpc : s.pc ≠ .flushEnd) (hlt : s.buf.wOff < s.buf.rOff) {w : Tapped ω}
    (hlog : w.log = s.writer.log) (hstall : stalls w < stalls s.writer) :
    Writes sent d s (.ret .pending { s with writer := w }) := by
  exact ⟨(h.stall hlog s.buf.needFlush).enter hpc fun _ heq => absurd heq (Nat.ne_of_lt hlt),
    work_le rfl (Nat.zero_le _) rfl, hstall⟩

section

variable (hpc : s.pc = .writeBuf)

include hpc

/-- The dot in front of a line. -/
theorem Inv.writesDot (hdot : s.buf.writeDot = true) : Writes sent d s s.stepLine := by
  obtain ⟨-, hcheck, hlt⟩ := h.dot hdot
  have happ := h.not_append hpc
  have hwire := h.wire
  rw [stepLine, if_pos hdot, pollWriteDot]
  rcases EncodeCopyBuffer.pollWriteBytes_fair s.buf s.writer (cons_ne_nil 46 [])
    (fun _ => s.buf) with ⟨w, heq, hlog, hstall⟩ | ⟨n, w, hn, hle, hlog, heq⟩
  · rw [heq]
    exact h.writesPending (by rw [hpc]; nofun) hlt hlog hstall
  · obtain rfl : n = 1 := by
      rw [length_singleton] at hle
      omega
    rw [heq]
    have hleft : s.left = [46] ++ { s with buf := { s.buf with writeDot := false } }.left := by
      simp [left, happ, hdot]
    refine ⟨{ h with wire := ?_, total := ?_, dot := nofun }, ?_⟩
    · rw [hlog, ← h.wire, hleft, append_assoc]
      rfl
    · rw [hlog, length_append, h.total]
      exact Nat.add_assoc _ _ _
    · exact work_lt Nat.one_pos (congrArg length hleft) rfl rfl

/-- A part of a line. -/
theorem Inv.writesLine (hdot : s.buf.writeDot = false) (hcheck : s.buf.checkLine = false)
    (hline : InLine s.buf.buf s.buf.wOff s.buf.lineEnd) (hlt : s.buf.wOff < s.buf.lineEnd) :
    Writes sent d s s.writeLine := by
  have happ := h.not_append hpc
  have hlen : (win s.buf.buf s.buf.wOff s.buf.lineEnd).length = s.buf.lineEnd - s.buf.wOff :=
    win_length hline.le_rOff
  have hne : win s.buf.buf s.buf.wOff s.buf.lineEnd ≠ [] := by
    intro hnil
    rw [hnil, length_nil] at hlen
    omega
  have hwlt : s.buf.wOff < s.buf.rOff := hlt.trans_le hline.le_rOff
  rw [writeLine, pollWriteLine]
  rcases EncodeCopyBuffer.pollWriteBytes_fair s.buf s.writer hne
    (fun n => { s.buf with wOff := s.buf.wOff + n })
    with ⟨w, heq, hlog, hstall⟩ | ⟨n, w, hn, hle, hlog, heq⟩
  · rw [heq]
    exact h.writesPending (by rw [hpc]; nofun) hwlt hlog hstall
  · rw [heq]
    rw [hlen] at hle
    obtain ⟨hsame, hstart⟩ := hline.take hn hle
    have hcut : s.buf.buf.drop s.buf.wOff =
        (win s.buf.buf s.buf.wOff s.buf.lineEnd).take n ++ s.buf.buf.drop (s.buf.wOff + n) := by
      rw [win, take_take, Nat.min_eq_left hle, ← drop_drop, take_append_drop]
    have hleft : s.left = (win s.buf.buf s.buf.wOff s.buf.lineEnd).take n ++ { s with
        buf := { s.buf with
          wOff := s.buf.wOff + n
          checkLine := decide (s.buf.lineEnd ≤ s.buf.wOff + n ∧
            s.buf.buf[s.buf.lineEnd - 1]? = some lf) } }.left := by
      simp only [left, happ, hdot, hcheck, Bool.false_eq_true, if_false, nil_append]
      rw [hcut, append_assoc, stuffFrom_append, hsame, hstart, append_assoc]
    have hlen' : ((win s.buf.buf s.buf.wOff s.buf.lineEnd).take n).length = n := by
      rw [length_take, hlen]
      omega
    simp only [afterLine_eq, hcheck, Bool.or_false]
    refine ⟨⟨?_, ?_, h.room, h.yields, h.clean, ?_, h.done, ?_, by simp [hpc], by simp [hdot],
      by simp [happ], by simp [hpc]⟩, ?_⟩
    · rw [hlog, ← h.wire, hleft, append_assoc]
      rfl
    · rw [hlog, length_append, h.total, hlen']
      exact Nat.add_assoc _ _ _
    · exact (show s.buf.wOff + n ≤ s.buf.lineEnd by omega).trans hline.le_rOff
    · refine fun _ => .inr ⟨?_, hline.le_rOff, ?_⟩
      · change s.buf.wOff + n ≤ s.buf.lineEnd
        omega
      · exact hline.rest n
    · refine work_lt hn ?_ (Nat.add_assoc _ _ _).symm rfl
      rw [hleft, length_append, hlen', Nat.add_comm]
      rfl

/-- The text is sent, and its size is the answer. -/
def Sent (sent d : Bytes) (total : Nat) (s : TextDataEncodeTransfer (Tapped ω)) : Prop :=
  s.writer.log = sent ++ dotEncode d ∧ total = (dotEncode d).length

theorem Inv.checkStart (hlt : s.buf.wOff < s.buf.rOff) (hdot : s.buf.writeDot = false)
    (hline : InLine s.buf.buf s.buf.wOff s.buf.lineEnd) (hlte : s.buf.wOff < s.buf.lineEnd) :
    pollCopy.Advances (Inv sent d) (Sent sent d) effort s s.checkStart := by
  unfold TextDataEncodeTransfer.checkStart
  split
  case isTrue hcheck =>
    have hwork : ∀ {b : EncodeCopyBuffer}, unread s.reader b = unread s.reader s.buf →
        { s with buf := b }.left = s.left →
        { s with buf := b }.effort.work = s.effort.work := by
      intro b hunread hleft
      simp only [effort, hunread, hleft]
    split
    case isTrue hfirst =>
      obtain ⟨hinv, hleft⟩ := h.checked hpc hlt hdot hcheck true (by simp [hfirst]) rfl
      refine ⟨hinv, .inr ⟨Nat.le_of_eq (hwork rfl hleft), .inr ⟨Nat.le_refl _, ?_⟩⟩⟩
      have hless : ∀ {b : EncodeCopyBuffer}, b.wOff < b.rOff → b.checkLine = false →
          phase .writeBuf b < phase .writeBuf s.buf := by
        intro b hb hc
        simp [phase, hb, hc, hlt, hcheck]
      rw [← hpc] at hless
      exact hless hlt rfl
    case isFalse hfirst =>
      obtain ⟨hinv, hleft⟩ := h.checked hpc hlt hdot hcheck s.buf.writeDot
        (by simp [hdot, hfirst]) rfl
      exact (hinv.writesLine hpc hdot rfl hline hlte).advances (Nat.le_of_eq (hwork rfl hleft)) rfl
  case isFalse hcheck =>
    exact (h.writesLine hpc hdot (by simpa using hcheck) hline hlte).advances (Nat.le_refl _) rfl

theorem Inv.stepLine (hlt : s.buf.wOff < s.buf.rOff) :
    pollCopy.Advances (Inv sent d) (Sent sent d) effort s s.stepLine := by
  cases hdot : s.buf.writeDot with
  | true => exact (h.writesDot hpc hdot).advances (Nat.le_refl _) rfl
  | false =>
    obtain ⟨e, hfind, hlte, hline⟩ := findLine_spec hlt (h.line (h.not_append hpc))
    rw [TextDataEncodeTransfer.stepLine, if_neg (by simp [hdot]), hfind]
    exact (h.found hpc hline).checkStart hpc hlt hdot hline hlte

/-- Behind the loop of `poll_write_buf` everything that was read is written. -/
theorem Inv.stepWritten (hge : ¬ s.buf.wOff < s.buf.rOff) :
    pollCopy.Advances (Inv sent d) (Sent sent d) effort s s.stepWritten := by
  have happ := h.not_append hpc
  have heq : s.buf.wOff = s.buf.rOff := Nat.le_antisymm h.le (Nat.le_of_not_lt hge)
  have hdot : s.buf.writeDot = false := by
    cases hdot : s.buf.writeDot with
    | false => rfl
    | true => exact absurd (h.dot hdot).2.2 hge
  have hfresh : (if s.buf.lineEnd = s.buf.rOff then { s.buf with lineEnd := 0 } else s.buf) =
      { s.buf with lineEnd := 0 } := by
    rcases h.line happ with hzero | hline
    · rw [← hzero, ite_self]
    · have hend : s.buf.lineEnd = s.buf.rOff :=
        Nat.le_antisymm hline.le_rOff (heq.symm.trans_le hline.le)
      rw [if_pos hend]
  have hinv : { s with
      buf := { s.buf with lineEnd := 0 }
      copyThisRound := s.copyThisRound + s.nw
      nw := 0
      pc := .top }.Inv sent d :=
    { h with
      line := fun _ => .inl rfl, fresh := fun _ _ _ => rfl, append := by simp [happ], flush := nofun }
  rw [TextDataEncodeTransfer.stepWritten, hfresh]
  dsimp only
  split
  case isTrue hyield =>
    refine ⟨hinv.enter nofun fun _ _ => rfl, .inl ?_⟩
    have hpos := h.yields
    change 2 * s.left.length + 0 + 0 + unread s.reader s.buf <
      2 * s.left.length + s.copyThisRound + s.nw + unread s.reader s.buf
    omega
  case isFalse =>
    split
    case isTrue hend =>
      have hdone : s.buf.readDone = true := by
        simp only [Bool.and_eq_true] at hend
        exact hend.1
      have hnil := h.done hdone
      have hdrop : s.buf.buf.drop s.buf.wOff = [] := by
        rw [heq]
        exact drop_length
      -- the bytes of the last line are what is left to write
      have hleft : s.left = (if s.buf.readEndOk then endLine else [cr, lf] ++ endLine) := by
        simp only [left, happ, hdot, hnil, hdrop, Bool.false_eq_true, if_false, append_nil,
          nil_append, startsLine_nil]
        cases s.buf.checkLine <;> rfl
      refine ⟨⟨?_, h.total, h.room, h.yields, h.clean, Nat.zero_le _, h.done, nofun, nofun,
        by simp [hdot, appendLine], ?_, nofun⟩, .inl ?_⟩
      · rw [← h.wire, hleft]
        rfl
      · refine fun _ => ⟨rfl, .inl ⟨rfl, ?_⟩⟩
        change 0 < length (if s.buf.readEndOk then endLine else [cr, lf] ++ endLine)
        split <;> decide
      · have hflags : unread s.reader s.buf = s.reader.events.length + 0 + 1 := by
          simp [unread, hdone, happ]
        have hlast : unread s.reader { s.buf with lineEnd := 0 }.appendLine =
            s.reader.events.length + 0 + 0 := by
          simp [unread, appendLine, hdone]
        change 2 * length (if s.buf.readEndOk then endLine else [cr, lf] ++ endLine) +
          (s.copyThisRound + s.nw) + 0 + unread s.reader { s.buf with lineEnd := 0 }.appendLine <
          2 * s.left.length + s.copyThisRound + s.nw + unread s.reader s.buf
        rw [hleft, hflags, hlast]
        omega
    case isFalse hend =>
      have hdone : s.buf.readDone = false := by
        have hsame : (s.buf.wOff == { s.buf with lineEnd := 0 }.rOff) = true := by
          rw [heq]
          exact beq_self_eq_true _
        rw [hsame, Bool.and_true] at hend
        simpa using hend
      refine ⟨hinv, .inr ⟨work_le rfl (Nat.le_refl _) rfl, .inr ⟨Nat.le_refl _, ?_⟩⟩⟩
      · change phase .top { s.buf with lineEnd := 0 } < phase s.pc s.buf
        have hge' : ¬ s.buf.wOff < { s.buf with lineEnd := 0 }.rOff := hge
        rw [hpc, phase, phase, if_neg hge, if_neg hge', if_neg (by simp [hdone])]
        exact Nat.lt_succ_self 2

end

/-- The transfer once `n` bytes of the last line are written. -/
def wroteLast (s : TextDataEncodeTransfer (Tapped ω)) (n : Nat) (w : Tapped ω) (pc : EncodeAt) :
    TextDataEncodeTransfer (Tapped ω) where
  reader := s.reader
  writer := w
  buf := { s.buf with
    wOff := s.buf.wOff + n, total := s.buf.total + n, needFlush := true, active := true }
  pc := pc
  copyThisRound := s.copyThisRound + n
  nw := s.nw

theorem Inv.wroteLast (happ : s.buf.writeAppendLine = true) {n : Nat} {w : Tapped ω} {pc : EncodeAt}
    (hn : 0 < n) (hle : n ≤ s.left.length) (hlog : w.log = s.writer.log ++ s.left.take n)
    (hpc : pc = .top ∧ s.buf.wOff + n < s.buf.rOff ∨ pc = .flushEnd ∧ s.buf.wOff + n = s.buf.rOff) :
    (s.wroteLast n w pc).Inv sent d ∧ (s.wroteLast n w pc).effort.work < s.effort.work := by
  have happ' : (s.wroteLast n w pc).buf.writeAppendLine = true := happ
  have hleft : (s.wroteLast n w pc).left = s.left.drop n := by
    rw [left, left, if_pos happ, if_pos happ', drop_drop]
    rfl
  have hnot : ∀ {p : Prop}, s.buf.writeAppendLine = false → p := by
    intro p hf
    rw [happ] at hf
    cases hf
  refine ⟨⟨?_, ?_, h.room, h.yields, h.clean, ?_, h.done, hnot, fun _ => hnot, ?_,
    fun _ => ⟨(h.append happ).1, hpc⟩, fun _ => happ⟩, ?_⟩
  · change w.log ++ _ = _
    rw [hleft, hlog, append_assoc, take_append_drop, h.wire]
  · change w.log.length = sent.length + (s.buf.total + n)
    rw [hlog, length_append, length_take, h.total]
    omega
  · change s.buf.wOff + n ≤ s.buf.rOff
    omega
  · exact fun hd => hnot (h.dot hd).1
  · refine work_lt hn ?_ (Nat.add_right_comm _ _ _) rfl
    rw [hleft, length_drop]
    omega

/-- The line that ends the mail. -/
theorem Inv.stepAppend (hpc : s.pc = .top) (happ : s.buf.writeAppendLine = true) :
    pollCopy.Advances (Inv sent d) (Sent sent d) effort s s.stepAppend := by
  obtain ⟨hend, ⟨-, hlt⟩ | ⟨hflush, -⟩⟩ := h.append happ
  · have hwin : win s.buf.buf s.buf.wOff s.buf.lineEnd = s.left := by
      rw [win, hend, left, if_pos happ]
      exact take_of_length_le (by simp [rOff])
    have hlen : s.left.length = s.buf.rOff - s.buf.wOff := by
      rw [left, if_pos happ, length_drop, rOff]
    have hne : s.left ≠ [] := by
      intro hnil
      rw [hnil, length_nil] at hlen
      omega
    rw [TextDataEncodeTransfer.stepAppend, pollWriteLine, hwin]
    rcases EncodeCopyBuffer.pollWriteBytes_fair s.buf s.writer hne
      (fun n => { s.buf with wOff := s.buf.wOff + n })
      with ⟨w, heq, hlog, hstall⟩ | ⟨n, w, hn, hle, hlog, heq⟩
    · rw [heq]
      exact (h.writesPending (by simp [hpc]) hlt hlog hstall).advances (Nat.le_refl _) rfl
    · rw [heq]
      dsimp only
      split
      case isTrue hall =>
        -- the last byte is written, and what is left is a flush
        have hoff : s.buf.wOff + n = s.buf.rOff := Nat.le_antisymm (by omega) hall
        obtain ⟨hinv, hwork⟩ := h.wroteLast happ hn hle hlog (.inr ⟨rfl, hoff⟩)
        exact ⟨hinv, .inl hwork⟩
      case isFalse hmore =>
        obtain ⟨hinv, hwork⟩ := h.wroteLast happ hn hle hlog (.inl ⟨hpc, Nat.lt_of_not_le hmore⟩)
        exact ⟨hinv, .inl hwork⟩
  · rw [hpc] at hflush
    cases hflush

/-- Nothing was read and nothing is left in the buffer: the next poll reads again. -/
theorem Inv.idle (hpc : s.pc = .top) (hwork : (pollCopy.enter s).effort.work < t.effort.work) :
    pollCopy.Advances (Inv sent d) (Sent sent d) effort t s.idle := by
  have hagain : ∀ (w : Tapped ω) (needFlush : Bool), w.log = s.writer.log →
      pollCopy.Advances (Inv sent d) (Sent sent d) effort t
        (.ret .pending { s with writer := w, buf := { s.buf with needFlush := needFlush } }) := by
    intro w needFlush hlog
    exact ⟨(h.stall hlog needFlush).enter (by rw [hpc]; nofun) (h.fresh hpc), .inl hwork⟩
  unfold TextDataEncodeTransfer.idle
  split
  case isTrue =>
    rcases hp : pollFlush s.writer with ⟨r, w⟩
    have hlog := tapped_pollFlush hp
    rcases pollFlush_fair hp with rfl | rfl
    · exact hagain w s.buf.needFlush hlog
    · exact hagain w _ hlog
  case isFalse => exact hagain s.writer s.buf.needFlush rfl

/-- A poll reads, unless the buffer is full. -/
theorem Inv.fill (hpc : s.pc = .top) (happ : s.buf.writeAppendLine = false)
    (hdone : s.buf.readDone = false) (hbuf : s.buf.wOff < s.buf.rOff ∨ s.buf.buf = [])
    (ht : t.effort = s.effort) : pollCopy.Advances (Inv sent d) (Sent sent d) effort t s.fill := by
  rw [TextDataEncodeTransfer.fill, pollFillBuf]
  by_cases hfull : s.buf.size ≤ s.buf.rOff + minBufSize
  · rw [if_pos hfull]
    have hlt : s.buf.wOff < s.buf.rOff := by
      refine hbuf.resolve_right fun hnil => ?_
      have hroom := h.room
      rw [rOff, hnil, length_nil] at hfull
      omega
    rw [Future.Advances, ht]
    refine ⟨h.toWriteBuf happ, .inr ⟨work_le rfl (Nat.le_add_right _ _) rfl, .inr ⟨Nat.le_refl _, ?_⟩⟩⟩
    · change phase .writeBuf s.buf < phase s.pc s.buf
      rw [hpc, phase, phase, if_pos hlt, if_pos hlt]
      split <;> decide
  · rw [if_neg hfull]
    have hcap : 0 < s.buf.size - s.buf.rOff := by omega
    have hclean := h.clean.pollRead (s.buf.size - s.buf.rOff)
    rcases hp : s.reader.pollRead (s.buf.size - s.buf.rOff) with ⟨_ | ⟨e | x⟩, r⟩
    all_goals rw [hp] at hclean
    · have hcont := Source.pollRead_pending hp
      have hev := congrArg length (Source.pollRead_events.2 hp)
      have hinv := h.readNothing hclean hcont s.buf.readDone (by rw [hdone]; nofun)
      have hleft : { s with reader := r }.left = s.left := by simp only [left, hcont]
      have hunread : unread r s.buf < unread s.reader s.buf := by simp [unread, ← hev]
      dsimp only
      split
      case isTrue =>
        exact hinv.idle hpc (ht ▸ work_lt_of_read hleft (Nat.zero_le _) hunread)
      case isFalse =>
        exact ⟨hinv.toWriteBuf happ, .inl (ht ▸ work_lt_of_read hleft (Nat.le_add_right _ _) hunread)⟩
    · exact absurd hp (h.clean.pollRead_ne e)
    · obtain ⟨hcont, -, hend⟩ := Source.pollRead_ok hp
      have hev := congrArg length (Source.pollRead_events.1 hp)
      rw [length_append, length_map] at hev
      by_cases hx : x = []
      · subst hx
        have hinv := h.readNothing hclean hcont true fun _ => hend hcap rfl
        refine ⟨hinv.toWriteBuf happ, .inl (ht ▸ work_lt_of_read ?_ (Nat.le_add_right _ _) ?_)⟩
        · rw [nil_append] at hcont
          simp only [left, hcont]
        · rw [length_nil, Nat.zero_add] at hev
          simp [unread, happ, hdone, ← hev]
      · dsimp only
        rw [if_neg hx]
        obtain ⟨hinv, hleft⟩ := h.readSome happ hdone hx hclean hcont true rfl
        have hpos := length_pos_iff.mpr hx
        refine ⟨hinv.toWriteBuf happ, .inl (ht ▸ work_lt_of_read hleft (Nat.le_add_right _ _) ?_)⟩
        simp only [unread, happ, hdone]
        omega

/-- Nothing is waited for behind the last byte. -/
def FlushesAtOnce (s : TextDataEncodeTransfer (Tapped ω)) : Prop :=
  s.pc = .flushEnd → (pollFlush s.writer).1 ≠ .pending

instance (s : TextDataEncodeTransfer (Tapped ω)) : Decidable s.FlushesAtOnce :=
  inferInstanceAs (Decidable (s.pc = .flushEnd → _))

theorem Inv.step (hflush : s.FlushesAtOnce) :
    pollCopy.Advances (Inv sent d) (Sent sent d) effort s (pollCopy.body s) := by
  change pollCopy.Advances _ _ _ _ s.step
  unfold TextDataEncodeTransfer.step
  split
  case h_1 hpc =>
    split
    case isTrue happ => exact h.stepAppend hpc happ
    case isFalse happ =>
      replace happ : s.buf.writeAppendLine = false := by simpa using happ
      split
      case isTrue hdone =>
        refine ⟨h.toWriteBuf happ, .inr ⟨work_le rfl (Nat.le_add_right _ _) rfl,
          .inr ⟨Nat.le_refl _, ?_⟩⟩⟩
        · change phase .writeBuf s.buf < phase s.pc s.buf
          rw [hpc, phase, phase]
          by_cases hlt : s.buf.wOff < s.buf.rOff
          · rw [if_pos hlt, if_pos hlt]
            split <;> decide
          · rw [if_neg hlt, if_neg hlt, if_pos hdone]
            decide
      case isFalse hdone =>
        replace hdone : s.buf.readDone = false := by simpa using hdone
        rw [EncodeCopyBuffer.reset]
        split
        case isTrue heq =>
          obtain ⟨hinv, hleft⟩ := h.reset hpc happ heq rfl
          refine hinv.fill hpc happ hdone (.inr rfl) ?_
          have hphase : phase s.pc { s.buf with wOff := 0, buf := [] } = phase s.pc s.buf := by
            simp [hpc, phase, heq, rOff]
          simp only [effort, hleft, hphase]
          rfl
        case isFalse hne =>
          exact h.fill hpc happ hdone (.inl (Nat.lt_of_le_of_ne h.le hne)) rfl
  case h_2 hpc =>
    split
    case isTrue hlt => exact h.stepLine hpc hlt
    case isFalse hge => exact h.stepWritten hpc hge
  case h_3 hpc =>
    have happ := h.flush hpc
    obtain ⟨-, ⟨htop, -⟩ | ⟨-, hoff⟩⟩ := h.append happ
    · rw [hpc] at htop
      cases htop
    · have hleft : s.left = [] := by
        rw [left, if_pos happ, hoff]
        exact drop_length
      have hwire := h.wire
      rw [hleft, append_nil] at hwire
      rcases hp : pollFlush s.writer with ⟨r, w⟩
      have hlog := tapped_pollFlush hp
      have hnot := hflush hpc
      rw [hp] at hnot
      rcases pollFlush_fair hp with rfl | rfl
      · exact absurd rfl hnot
      · refine ⟨hlog.trans hwire, ?_⟩
        have htotal := h.total
        have hlen := congrArg length hwire
        rw [length_append] at hlen
        omega

end

/-- A transfer that does not wait for its last flush sends the text. -/
theorem pollCopy_sends {reader : Source} {writer : Tapped ω} {config : StreamCopyConfig}
    (hconfig : config.Built) (hreader : reader.Unfailing)
    (hflush : ∀ t, pollCopy.Runs (fun _ => True) (new reader writer config) t → t.FlushesAtOnce) :
    ∃ n total t, pollCopy.drive n (new reader writer config) = some (.ok total, t) ∧
      Sent writer.log reader.content total t :=
  Future.drive_total (fun h hP => h.step hP) (inv_new hconfig hreader) hflush

end TextDataEncodeTransfer

end Vey.Smtp
