import Vey.Schemes.Write

/-! `StreamCopyBuffer`: copy a reader into a writer through one fixed buffer.

    A poll of the copy loops over two parts, reading once and then writing until the buffer is
    empty:

        top   --read-->  write  --partial writes-->  write  --empty-->  top
                           |                           |
                         Pending (tops the buffer up)  Ready (after EOF and a flush)

    What the reader delivered and the writer accepted is in the taps of the two streams, so the
    conservation law of the copy is an equation between the two taps and the live bytes of the
    buffer. -/

namespace Vey.IoExt
open Schemes List

/-- DEFAULT_COPY_BUFFER_SIZE -/
def defaultCopyBufferSize : Nat := 16 * 1024

/-- MINIMAL_COPY_BUFFER_SIZE -/
def minimalCopyBufferSize : Nat := 4 * 1024

/-- MINIMAL_READ_BUFFER_SIZE -/
def minimalReadBufferSize : Nat := 256

/-- DEFAULT_COPY_YIELD_SIZE -/
def defaultCopyYieldSize : Nat := 1024 * 1024

/-- MINIMAL_COPY_YIELD_SIZE -/
def minimalCopyYieldSize : Nat := 256 * 1024

structure StreamCopyConfig where
  bufferSize : Nat := defaultCopyBufferSize
  yieldSize : Nat := defaultCopyYieldSize

def StreamCopyConfig.setBufferSize (c : StreamCopyConfig) (n : Nat) : StreamCopyConfig :=
  { c with bufferSize := max n minimalCopyBufferSize }

def StreamCopyConfig.setYieldSize (c : StreamCopyConfig) (n : Nat) : StreamCopyConfig :=
  { c with yieldSize := max n minimalCopyYieldSize }

/-- The configurations that can be built. -/
inductive StreamCopyConfig.Built : StreamCopyConfig → Prop where
  | default : Built {}
  | setBufferSize {c : StreamCopyConfig} (n : Nat) : Built c → Built (c.setBufferSize n)
  | setYieldSize {c : StreamCopyConfig} (n : Nat) : Built c → Built (c.setYieldSize n)

/-- The setters keep both sizes above their minimum. -/
theorem StreamCopyConfig.Built.minimal {c : StreamCopyConfig} (h : c.Built) :
    minimalCopyBufferSize ≤ c.bufferSize ∧ minimalCopyYieldSize ≤ c.yieldSize := by
  induction h with
  | default => decide
  | setBufferSize n _ ih => exact ⟨Nat.le_max_right _ _, ih.2⟩
  | setYieldSize n _ ih => exact ⟨ih.1, Nat.le_max_right _ _⟩

inductive StreamCopyError where
  | readFailed (e : IoError)
  | writeFailed (e : IoError)
  deriving DecidableEq

/-- The answer of a poll of a copy. -/
abbrev CopyPoll (α : Type) := Poll (Except StreamCopyError α)

/-- A `Vec<u8>`: its data and the capacity it was allocated with. -/
structure Vec where
  data : Bytes
  capacity : Nat
  data_le : data.length ≤ capacity

/-- The bytes of the vector after `resize(n, 0)`. -/
def Vec.resize (v : Vec) (n : Nat) : Bytes :=
  v.data.take n ++ List.replicate (n - v.data.length) 0

/-- `buf[w_off..r_off]` is still to be written. -/
structure StreamCopyBuffer where
  readDone : Bool
  buf : Bytes
  yieldSize : Nat
  rOff : Nat
  wOff : Nat
  totalRead : Nat
  totalWrite : Nat
  needFlush : Bool
  active : Bool
  deriving DecidableEq

namespace StreamCopyBuffer

-- The source leaves the new buffer uninitialised; zeros stand for its content, as only bytes
-- that a read filled are ever read back.
def new (config : StreamCopyConfig) : StreamCopyBuffer where
  readDone := false
  buf := List.replicate config.bufferSize 0
  yieldSize := config.yieldSize
  rOff := 0
  wOff := 0
  totalRead := 0
  totalWrite := 0
  needFlush := false
  active := false

def withData (config : StreamCopyConfig) (buf : Vec) : StreamCopyBuffer where
  readDone := false
  buf := if buf.capacity < config.bufferSize then buf.resize config.bufferSize
    else buf.resize buf.capacity
  yieldSize := config.yieldSize
  rOff := buf.data.length
  wOff := 0
  totalRead := 0
  totalWrite := 0
  needFlush := false
  active := true

/-- `buf[w_off..r_off]`: what was read and is not written yet. -/
def cached (b : StreamCopyBuffer) : Bytes := win b.buf b.wOff b.rOff

variable {ρ ω : Type} [AsyncRead ρ] [AsyncWrite ω] (b : StreamCopyBuffer)

/-- One read into the free part of the buffer. -/
def pollFillBuf (reader : ρ) : IoPoll Unit × StreamCopyBuffer × ρ :=
  match pollRead reader (b.buf.length - b.rOff) with
  | (.pending, reader) => (.pending, b, reader)
  | (.ready (.error e), reader) => (.ready (.error e), b, reader)
  | (.ready (.ok d), reader) =>
    if d.length = 0 then
      (.ready (.ok ()), { b with readDone := true }, reader)
    else
      (.ready (.ok ()), { b with
        buf := overwrite b.buf b.rOff d
        rOff := b.rOff + d.length
        totalRead := b.totalRead + d.length
        active := true }, reader)

/-- Moves what is cached to the front, if it fits there. -/
def checkMoveCache : StreamCopyBuffer :=
  let left := b.rOff - b.wOff
  if left ≤ b.wOff then
    { b with buf := overwrite b.buf 0 b.cached, wOff := 0, rOff := left }
  else b

/-- One write of what is cached. -/
def pollWriteBuf (reader : ρ) (writer : ω) : CopyPoll Nat × StreamCopyBuffer × ρ × ω :=
  match pollWrite writer b.cached with
  | (.pending, writer) =>
    -- a blocked write tops the buffer up
    if b.readDone then (.pending, b, reader, writer)
    else
      let b := b.checkMoveCache
      if b.rOff + minimalReadBufferSize ≤ b.buf.length then
        match b.pollFillBuf reader with
        | (.ready (.error e), b, reader) => (.ready (.error (.readFailed e)), b, reader, writer)
        | (_, b, reader) => (.pending, b, reader, writer)
      else (.pending, b, reader, writer)
  | (.ready (.error e), writer) => (.ready (.error (.writeFailed e)), b, reader, writer)
  | (.ready (.ok 0), writer) =>
    (.ready (.error (.writeFailed ⟨.writeZero, "write zero byte into writer"⟩)), b, reader, writer)
  | (.ready (.ok n), writer) =>
    (.ready (.ok n), { b with
      wOff := b.wOff + n
      totalWrite := b.totalWrite + n
      needFlush := true
      active := true }, reader, writer)

/-- The first lines of a round of `poll_copy`: reset an empty buffer, compact a used one. -/
def makeRoom : StreamCopyBuffer :=
  let b := if b.wOff = b.rOff then { b with wOff := 0, rOff := 0 } else b
  if b.wOff ≠ 0 then b.checkMoveCache else b

end StreamCopyBuffer

/-! ### The copy loop -/

/-- Where `poll_copy` is: at the top of the loop, or writing the buffer out. -/
inductive CopyAt where
  | top
  | write
  deriving DecidableEq

/-- A copy in flight: its buffer, the two streams and the local variables of `poll_copy`. -/
structure StreamCopy (ρ ω : Type) where
  reader : ρ
  writer : ω
  buf : StreamCopyBuffer
  pc : CopyAt := .top
  copyThisRound : Nat := 0
  deriving DecidableEq

namespace StreamCopy

abbrev Step (ρ ω : Type) := Ctrl (StreamCopy ρ ω) (CopyPoll Nat)

variable {ρ ω : Type} [AsyncRead ρ] [AsyncWrite ω] (s : StreamCopy ρ ω)

def enter : StreamCopy ρ ω := { s with pc := .top, copyThisRound := 0 }

def new (reader : ρ) (writer : ω) (config : StreamCopyConfig) : StreamCopy ρ ω where
  reader := reader
  writer := writer
  buf := .new config

def withData (reader : ρ) (writer : ω) (config : StreamCopyConfig) (data : Vec) :
    StreamCopy ρ ω where
  reader := reader
  writer := writer
  buf := .withData config data

def resetActive : StreamCopy ρ ω :=
  { s with buf := { s.buf with active := false } }

/-- Nothing could be read and nothing is left to write: flush once, then wait. -/
def idle : Step ρ ω :=
  if s.buf.needFlush then
    let buf := { s.buf with needFlush := false }
    match pollFlush s.writer with
    | (.ready (.error e), writer) =>
      .ret (.ready (.error (.writeFailed e))) { s with buf := buf, writer := writer }
    | (_, writer) => .ret .pending { s with buf := buf, writer := writer }
  else .ret .pending s

/-- The reading part of a round. -/
def fill : Step ρ ω :=
  if s.buf.readDone then .next { s with pc := .write }
  else
    let buf := s.buf.makeRoom
    if buf.rOff < buf.buf.length then
      match buf.pollFillBuf s.reader with
      | (.ready (.ok _), buf, reader) => .next { s with buf := buf, reader := reader, pc := .write }
      | (.ready (.error e), buf, reader) =>
        .ret (.ready (.error (.readFailed e))) { s with buf := buf, reader := reader }
      | (.pending, buf, reader) =>
        if buf.wOff ≥ buf.rOff then idle { s with buf := buf, reader := reader }
        else .next { s with buf := buf, reader := reader, pc := .write }
    else .next { s with buf := buf, pc := .write }

/-- The writing part of a round, and what follows when the buffer is empty. -/
def drain : Step ρ ω :=
  if s.buf.wOff < s.buf.rOff then
    match s.buf.pollWriteBuf s.reader s.writer with
    | (.ready (.ok i), buf, reader, writer) =>
      .next { s with buf := buf, reader := reader, writer := writer
                     copyThisRound := s.copyThisRound + i }
    | (.ready (.error e), buf, reader, writer) =>
      .ret (.ready (.error e)) { s with buf := buf, reader := reader, writer := writer }
    | (.pending, buf, reader, writer) =>
      .ret .pending { s with buf := buf, reader := reader, writer := writer }
  else if s.buf.readDone then
    if s.buf.needFlush then
      match pollFlush s.writer with
      | (.ready (.ok _), writer) => .ret (.ready (.ok s.buf.totalWrite)) { s with writer := writer }
      | (.ready (.error e), writer) =>
        .ret (.ready (.error (.writeFailed e))) { s with writer := writer }
      | (.pending, writer) => .ret .pending { s with writer := writer }
    else .ret (.ready (.ok s.buf.totalWrite)) s
  else if s.copyThisRound ≥ s.buf.yieldSize then .ret .pending s
  else .next { s with pc := .top }

/-- One step of `poll_copy`. -/
def pollCopy : Step ρ ω :=
  match s.pc with
  | .top => s.fill
  | .write => s.drain

/-- The copy as a future. -/
def future (ρ ω : Type) [AsyncRead ρ] [AsyncWrite ω] :
    Future (StreamCopy ρ ω) (Except StreamCopyError Nat) := ⟨enter, pollCopy⟩

end StreamCopy

/-! ### `write_flush` -/

/-- Where `write_flush` is: before its check, inside `write_all`, at the flush. -/
inductive FlushAt where
  | check
  | writeAll (offset : Nat)
  | flush

structure WriteFlush (ω : Type) where
  buf : StreamCopyBuffer
  writer : ω
  pc : FlushAt := .check

namespace WriteFlush

variable {ω : Type} [AsyncWrite ω]

/-- One step of `write_flush`. The offsets of the buffer move when `write_all` is through. -/
def step (s : WriteFlush ω) : Ctrl (WriteFlush ω) (CopyPoll Unit) :=
  match s.pc with
  | .check =>
    if s.buf.wOff < s.buf.rOff then .next { s with pc := .writeAll 0 } else .ret (.ready (.ok ())) s
  | .writeAll offset =>
    if s.buf.cached.length ≤ offset then
      .next { s with
        buf := { s.buf with
          totalWrite := s.buf.totalWrite + (s.buf.rOff - s.buf.wOff), wOff := s.buf.rOff }
        pc := .flush }
    else
      match pollWrite s.writer (s.buf.cached.drop offset) with
      | (.pending, writer) => .ret .pending { s with writer := writer }
      | (.ready (.error e), writer) =>
        .ret (.ready (.error (.writeFailed e))) { s with writer := writer }
      | (.ready (.ok 0), writer) =>
        .ret (.ready (.error (.writeFailed ⟨.writeZero, "write zero"⟩))) { s with writer := writer }
      | (.ready (.ok n), writer) => .next { s with writer := writer, pc := .writeAll (offset + n) }
  | .flush =>
    match pollFlush s.writer with
    | (.pending, writer) => .ret .pending { s with writer := writer }
    | (.ready (.error e), writer) =>
      .ret (.ready (.error (.writeFailed e))) { s with writer := writer }
    | (.ready (.ok _), writer) => .ret (.ready (.ok ())) { s with writer := writer }

-- an async function keeps its local variables over a suspension, so a further poll resets nothing
def future (ω : Type) [AsyncWrite ω] : Future (WriteFlush ω) (Except StreamCopyError Unit) :=
  ⟨id, step⟩

end WriteFlush

/-- What the owner of a copy can do with it between two polls. -/
inductive Owner {ρ ω : Type} [AsyncWrite ω] : StreamCopy ρ ω → StreamCopy ρ ω → Prop where
  | resetActive (s : StreamCopy ρ ω) : Owner s s.resetActive
  | writeFlush {s : StreamCopy ρ ω} {f : WriteFlush ω} :
      (WriteFlush.future ω).Completes { buf := s.buf, writer := s.writer } (.ok ()) f →
      Owner s { s with buf := f.buf, writer := f.writer }

/-! ### Conservation

    `Conserves base data delivered accepted b` is the law of one buffer, whose writer had accepted
    `base` bytes before the copy; `Flow` adds the reader, which
    has delivered some bytes and is at its end once the buffer says so. -/

/-- What the writer accepted and what is cached is the initial data and what was delivered. -/
structure Conserves (base : Nat) (data delivered accepted : Bytes) (b : StreamCopyBuffer) :
    Prop where
  flow : accepted ++ b.cached = data ++ delivered
  w_le : b.wOff ≤ b.rOff
  r_le : b.rOff ≤ b.buf.length
  total : base + b.totalWrite = accepted.length
  read : b.totalRead = delivered.length

/-- The law for a buffer and the reader that fills it. -/
def Flow {ρ : Type} [AsyncRead ρ] (R : ReaderSpec ρ) (base : Nat) (data accepted : Bytes)
    (b : StreamCopyBuffer) (reader : ρ) : Prop :=
  ∃ d, R.rel d reader ∧ Conserves base data d accepted b ∧ (b.readDone = true → R.eof reader)

/-- The law of a buffer whose reader is one that `R` speaks of, or what a failed read has left of it. -/
def Spoiled {ρ : Type} [AsyncRead ρ] (R : ReaderSpec ρ) (base : Nat) (data accepted : Bytes)
    (b : StreamCopyBuffer) (reader : ρ) : Prop :=
  ∃ d r, R.rel d r ∧ Conserves base data d accepted b ∧
    (reader = r ∨ ∃ cap e, 0 < cap ∧ pollRead r cap = (.ready (.error e), reader))

variable {b : StreamCopyBuffer} {base : Nat}

theorem Flow.spoiled {ρ : Type} [AsyncRead ρ] {R : ReaderSpec ρ} {data acc : Bytes} {r : ρ}
    (h : Flow R base data acc b r) : Spoiled R base data acc b r := by
  obtain ⟨d, hrel, hcons, -⟩ := h
  exact ⟨d, r, hrel, hcons, .inl rfl⟩

theorem Conserves.new (config : StreamCopyConfig) :
    Conserves 0 [] [] [] (StreamCopyBuffer.new config) where
  flow := by simp [StreamCopyBuffer.new, StreamCopyBuffer.cached]
  w_le := Nat.le_refl _
  r_le := Nat.zero_le _
  total := rfl
  read := rfl

theorem Vec.resize_of_le {v : Vec} {n : Nat} (h : v.data.length ≤ n) :
    v.resize n = v.data ++ replicate (n - v.data.length) 0 := by
  rw [Vec.resize, take_of_length_le h]

theorem Conserves.withData (config : StreamCopyConfig) (v : Vec) :
    Conserves 0 v.data [] [] (StreamCopyBuffer.withData config v) := by
  -- `resize` never truncates: either the capacity or something larger is asked for
  have hbuf : ∃ pad, (StreamCopyBuffer.withData config v).buf = v.data ++ pad := by
    have hle := v.data_le
    by_cases hc : v.capacity < config.bufferSize
    · exact ⟨_, by rw [StreamCopyBuffer.withData, if_pos hc, Vec.resize_of_le (by omega)]⟩
    · exact ⟨_, by rw [StreamCopyBuffer.withData, if_neg hc, Vec.resize_of_le hle]⟩
  obtain ⟨pad, hbuf⟩ := hbuf
  refine ⟨?_, Nat.zero_le _, ?_, rfl, rfl⟩
  · rw [StreamCopyBuffer.cached, hbuf]
    simp [StreamCopyBuffer.withData, win]
  · rw [hbuf]
    simp [StreamCopyBuffer.withData]

/-- A copy into a writer that has accepted `head` before. -/
theorem Conserves.behind {data d : Bytes} (h : Conserves 0 data d [] b)
    (head : Bytes) : Conserves head.length (head ++ data) d head b where
  flow := by
    have hflow := h.flow
    rw [nil_append] at hflow
    rw [hflow, append_assoc]
  w_le := h.w_le
  r_le := h.r_le
  total := by
    have htotal := h.total
    rw [length_nil] at htotal
    omega
  read := h.read

variable {data d acc : Bytes}

section

variable (h : Conserves base data d acc b)

include h

theorem Conserves.makeRoom_reset (hwr : b.wOff = b.rOff) :
    Conserves base data d acc { b with wOff := 0, rOff := 0 } := by
  have hf := h.flow
  simp only [StreamCopyBuffer.cached, hwr, win_self] at hf
  exact ⟨by simpa [StreamCopyBuffer.cached] using hf, Nat.le_refl _, Nat.zero_le _, h.total,
    h.read⟩

theorem Conserves.checkMoveCache : Conserves base data d acc b.checkMoveCache := by
  have hw := h.w_le
  have hr := h.r_le
  have hl : b.cached.length = b.rOff - b.wOff := win_length hr
  unfold StreamCopyBuffer.checkMoveCache
  by_cases hc : b.rOff - b.wOff ≤ b.wOff
  · rw [if_pos hc]
    refine ⟨?_, Nat.zero_le _, ?_, h.total, h.read⟩
    · rw [← h.flow]
      congr 1
      exact win_overwrite_front hr
    · simp only
      rw [overwrite_length (by omega)]
      omega
  · rw [if_neg hc]; exact h

theorem Conserves.makeRoom : Conserves base data d acc b.makeRoom := by
  unfold StreamCopyBuffer.makeRoom
  by_cases hwr : b.wOff = b.rOff
  · simp only [if_pos hwr]
    exact h.makeRoom_reset hwr
  · simp only [if_neg hwr]
    split
    · exact h.checkMoveCache
    · exact h

/-- A read behind the live bytes. -/
theorem Conserves.fill {x : Bytes} (hx : x.length ≤ b.buf.length - b.rOff) (act : Bool) :
    Conserves base data (d ++ x) acc { b with
      buf := overwrite b.buf b.rOff x, rOff := b.rOff + x.length
      totalRead := b.totalRead + x.length, active := act } := by
  have hw := h.w_le
  have hr := h.r_le
  refine ⟨?_, by simp only; omega, ?_, h.total, by rw [length_append, ← h.read]⟩
  · have := win_overwrite_fill (d := x) hw (by omega : b.rOff + x.length ≤ b.buf.length)
    simp only [StreamCopyBuffer.cached]
    rw [this, ← append_assoc, ← append_assoc]
    exact congrArg (· ++ x) h.flow
  · simp only
    rw [overwrite_length (by omega)]; omega

/-- A write of the first live bytes. -/
theorem Conserves.wrote {n : Nat} (hn : n ≤ b.cached.length) (nf act : Bool) :
    Conserves base data d (acc ++ b.cached.take n) { b with
      wOff := b.wOff + n, totalWrite := b.totalWrite + n, needFlush := nf, active := act } := by
  have hw := h.w_le
  have hl : b.cached.length = b.rOff - b.wOff := win_length h.r_le
  refine ⟨?_, by simp only; omega, h.r_le, ?_, h.read⟩
  · simp only [StreamCopyBuffer.cached, win_drop]
    rw [append_assoc, take_append_drop]
    exact h.flow
  · have := h.total
    simp only [length_append, length_take]
    omega

end

section

variable {ρ ω : Type} [AsyncRead ρ] [AsyncWrite ω] {R : ReaderSpec ρ} {b' : StreamCopyBuffer}
  {r r' : ρ}

/-- A change of the buffer that keeps the law and `read_done` keeps the flow. -/
theorem Flow.mapBuf (h : Flow R base data acc b r)
    (hc : ∀ d, Conserves base data d acc b → Conserves base data d acc b')
    (hd : b'.readDone = b.readDone) :
    Flow R base data acc b' r := by
  obtain ⟨d, hrel, hcons, heof⟩ := h
  exact ⟨d, hrel, hc d hcons, fun hrd => heof (hd ▸ hrd)⟩

theorem checkMoveCache_readDone (b : StreamCopyBuffer) :
    b.checkMoveCache.readDone = b.readDone := by
  simp only [StreamCopyBuffer.checkMoveCache]
  split <;> rfl

theorem Flow.checkMoveCache (h : Flow R base data acc b r) : Flow R base data acc b.checkMoveCache r :=
  h.mapBuf (fun _ => Conserves.checkMoveCache) (checkMoveCache_readDone b)

theorem makeRoom_readDone (b : StreamCopyBuffer) : b.makeRoom.readDone = b.readDone := by
  simp only [StreamCopyBuffer.makeRoom]
  split
  · rfl
  · split
    · exact checkMoveCache_readDone b
    · rfl

theorem Flow.makeRoom (h : Flow R base data acc b r) : Flow R base data acc b.makeRoom r :=
  h.mapBuf (fun _ => Conserves.makeRoom) (makeRoom_readDone b)

/-- A read that does not fail keeps the flow. -/
theorem Flow.pollFillBuf {a : IoPoll Unit} (h : Flow R base data acc b r)
    (hroom : b.rOff < b.buf.length) (hnd : b.readDone = false)
    (hp : b.pollFillBuf r = (a, b', r')) :
    ((∀ e, a ≠ .ready (.error e)) → Flow R base data acc b' r') ∧ Spoiled R base data acc b' r' := by
  obtain ⟨d, hrel, hcons, heof⟩ := h
  have hcap : 0 < b.buf.length - b.rOff := by omega
  have hboth : Flow R base data acc b' r' →
      ((∀ e, a ≠ .ready (.error e)) → Flow R base data acc b' r') ∧ Spoiled R base data acc b' r' :=
    fun hf => ⟨fun _ => hf, hf.spoiled⟩
  unfold StreamCopyBuffer.pollFillBuf at hp
  split at hp
  case h_1 r₁ hr =>
    cases hp
    exact hboth ⟨d, R.stall hrel hcap hr, hcons, fun hrd => by simp [hnd] at hrd⟩
  case h_2 e r₁ hr =>
    cases hp
    exact ⟨fun ha => absurd rfl (ha e), d, r, hrel, hcons, .inr ⟨_, e, hcap, hr⟩⟩
  case h_3 x r₁ hr =>
    have hx := AsyncRead.pollRead_le hr
    split at hp
    case isTrue h0 =>
      cases hp
      obtain rfl : x = [] := length_eq_zero_iff.mp h0
      exact hboth ⟨d, by simpa using R.read hrel hcap hr, { hcons with }, fun _ => R.stop hrel hcap hr⟩
    case isFalse h0 =>
      cases hp
      exact hboth ⟨d ++ x, R.read hrel hcap hr, hcons.fill hx _, fun hrd => by simp [hnd] at hrd⟩

/-- A write that does not fail, with the read it may trigger, keeps the flow. -/
theorem Flow.pollWriteBuf {w w' : Tapped ω} {a : CopyPoll Nat}
    (h : Flow R base data w.log b r) (hp : b.pollWriteBuf r w = (a, b', r', w')) :
    ((∀ e, a ≠ .ready (.error e)) → Flow R base data w'.log b' r') ∧
      Spoiled R base data w'.log b' r' := by
  unfold StreamCopyBuffer.pollWriteBuf at hp
  split at hp
  case h_1 w₁ hw =>
    rw [← tapped_write_pending hw] at h
    split at hp
    case isTrue hd =>
      cases hp
      exact ⟨fun _ => h, h.spoiled⟩
    case isFalse hd =>
      have hm := h.checkMoveCache
      simp only at hp
      split at hp
      case isTrue hroom =>
        have hroom' : b.checkMoveCache.rOff < b.checkMoveCache.buf.length := by
          simp only [minimalReadBufferSize] at hroom; omega
        have hnd : b.checkMoveCache.readDone = false := by
          rw [checkMoveCache_readDone]; simpa using hd
        split at hp
        case h_1 e b₁ r₁ hf =>
          cases hp
          exact ⟨fun ha => absurd rfl (ha _), (hm.pollFillBuf hroom' hnd hf).2⟩
        case h_2 a₁ b₁ r₁ hne hf =>
          cases hp
          have hfill := hm.pollFillBuf hroom' hnd hf
          exact ⟨fun _ => hfill.1 hne, hfill.2⟩
      case isFalse hroom =>
        cases hp
        exact ⟨fun _ => hm, hm.spoiled⟩
  case h_2 e w₁ hw | h_3 w₁ hw =>
    cases hp
    refine ⟨fun ha => absurd rfl (ha _), ?_⟩
    rw [tapped_pollWrite hw]
    simpa [acceptedBy] using h.spoiled
  case h_4 n w₁ hn hw =>
    have hlog : w₁.log = w.log ++ b.cached.take n := tapped_pollWrite hw
    cases hp
    obtain ⟨d, hrel, hcons, heof⟩ := h
    have hflow : Flow R base data w'.log { b with
        wOff := b.wOff + n, totalWrite := b.totalWrite + n, needFlush := true, active := true } r := by
      rw [hlog]
      exact ⟨d, hrel, hcons.wrote (AsyncWrite.pollWrite_le hw) _ _, heof⟩
    exact ⟨fun _ => hflow, hflow.spoiled⟩

end

namespace StreamCopy

variable {ρ ω : Type} [AsyncRead ρ] [AsyncWrite ω] {R : ReaderSpec ρ}
  {s t : StreamCopy ρ (Tapped ω)}

/-- The conservation law of a copy. -/
def Inv (R : ReaderSpec ρ) (base : Nat) (data : Bytes) (s : StreamCopy ρ (Tapped ω)) : Prop :=
  Flow R base data s.writer.log s.buf s.reader

/-- A finished copy: the reader is at its end, nothing is cached and `n` bytes were written. -/
structure Finished (R : ReaderSpec ρ) (base : Nat) (data : Bytes) (n : Nat)
    (s : StreamCopy ρ (Tapped ω)) :
    Prop where
  inv : s.Inv R base data
  cached : s.buf.cached = []
  eof : R.eof s.reader
  written : base + n = s.writer.log.length

omit [AsyncWrite ω] in
theorem Inv.enter (h : s.Inv R base data) : s.enter.Inv R base data := h

/-- A copy that failed. -/
def Broken (R : ReaderSpec ρ) (base : Nat) (data : Bytes) (s : StreamCopy ρ (Tapped ω)) : Prop :=
  Spoiled R base data s.writer.log s.buf s.reader

section
variable (h : s.Inv R base data)
include h

theorem idle_settles :
    s.idle.Settles (Inv R base data) (Finished R base data) (Broken R base data) := by
  have hb : Flow R base data s.writer.log { s.buf with needFlush := false } s.reader :=
    h.mapBuf (fun _ hc => { hc with }) rfl
  unfold idle
  split
  · split
    case h_1 e w hw =>
      rw [← tapped_pollFlush hw] at hb
      exact hb.spoiled
    case h_2 a w hne hw =>
      rw [← tapped_pollFlush hw] at hb
      exact hb
  · exact h

theorem fill_settles :
    s.fill.Settles (Inv R base data) (Finished R base data) (Broken R base data) := by
  have hm : Flow R base data s.writer.log s.buf.makeRoom s.reader := h.makeRoom
  unfold fill
  split
  case isTrue => exact h
  case isFalse hd =>
    have hnd : s.buf.makeRoom.readDone = false := by rw [makeRoom_readDone]; simpa using hd
    simp only
    split
    case isTrue hroom =>
      split
      case h_1 b r hf => exact (hm.pollFillBuf hroom hnd hf).1 (by simp)
      case h_2 e b r hf => exact (hm.pollFillBuf hroom hnd hf).2
      case h_3 b r hf =>
        have hf' := (hm.pollFillBuf hroom hnd hf).1 (by simp)
        split
        · exact idle_settles hf'
        · exact hf'
    case isFalse => exact hm

theorem drain_settles :
    s.drain.Settles (Inv R base data) (Finished R base data) (Broken R base data) := by
  unfold drain
  split
  case isTrue =>
    split
    case h_1 i b r w hw => exact (Flow.pollWriteBuf h hw).1 (by simp)
    case h_2 e b r w hw => exact (Flow.pollWriteBuf h hw).2
    case h_3 b r w hw => exact (Flow.pollWriteBuf h hw).1 (by simp)
  case isFalse hlt =>
    split
    case isTrue hd =>
      obtain ⟨d, hrel, hcons, heof⟩ := h
      have hcached : s.buf.cached = [] := by
        have hwr : s.buf.wOff = s.buf.rOff := Nat.le_antisymm hcons.w_le (by omega)
        rw [StreamCopyBuffer.cached, hwr, win_self]
      split
      · split
        case h_1 w hw =>
          rw [← tapped_pollFlush hw] at hcons
          exact ⟨⟨d, hrel, hcons, heof⟩, hcached, heof hd, hcons.total⟩
        case h_2 e w hw =>
          rw [← tapped_pollFlush hw] at hcons
          exact ⟨d, s.reader, hrel, hcons, .inl rfl⟩
        case h_3 w hw =>
          rw [← tapped_pollFlush hw] at hcons
          exact ⟨d, hrel, hcons, heof⟩
      · exact ⟨⟨d, hrel, hcons, heof⟩, hcached, heof hd, hcons.total⟩
    case isFalse => split <;> exact h

/-- One step of `poll_copy` keeps the law, also where it fails, and a copy that is ready has written
    everything. -/
theorem pollCopy_settles :
    s.pollCopy.Settles (Inv R base data) (Finished R base data) (Broken R base data) := by
  unfold pollCopy
  cases s.pc with
  | top => exact fill_settles h
  | write => exact drain_settles h

theorem pollCopy_ensures :
    s.pollCopy.Ensures (Inv R base data) (Finished R base data) := (pollCopy_settles h).ensures

end

end StreamCopy

/-! ### Whole runs -/

section

variable {ρ ω : Type} [AsyncRead ρ] [AsyncWrite ω] {R : ReaderSpec ρ}

/-- The law inside `write_flush`: the offset of `write_all` counts bytes that the writer has and
    the buffer still calls cached. -/
def WriteFlush.Inv (R : ReaderSpec ρ) (base : Nat) (data : Bytes) (reader : ρ)
    (f : WriteFlush (Tapped ω)) :
    Prop :=
  match f.pc with
  | .writeAll offset => ∃ acc, offset ≤ f.buf.cached.length ∧
      f.writer.log = acc ++ f.buf.cached.take offset ∧ Flow R base data acc f.buf reader
  | _ => Flow R base data f.writer.log f.buf reader

theorem WriteFlush.step_ensures {reader : ρ} {f : WriteFlush (Tapped ω)}
    (h : f.Inv R base data reader) :
    f.step.Ensures (Inv R base data reader) fun _ g => Flow R base data g.writer.log g.buf reader := by
  obtain ⟨b, w, pc⟩ := f
  cases pc with
  | check =>
    simp only [step]
    split
    · exact ⟨w.log, by simp, by simp, h⟩
    · exact h
  | writeAll offset =>
    obtain ⟨acc, hoff, hlog, hflow⟩ : ∃ acc, offset ≤ b.cached.length ∧
      w.log = acc ++ b.cached.take offset ∧ Flow R base data acc b reader := h
    simp only [step]
    split
    case isTrue hle =>
      -- the whole cache is written: it moves from the buffer to the accepted bytes at once
      have hall : b.cached.take offset = b.cached := take_of_length_le hle
      obtain ⟨d, hrel, hcons, heof⟩ := hflow
      have hlen : b.cached.length = b.rOff - b.wOff := win_length hcons.r_le
      have hw := hcons.w_le
      have hc := hcons.wrote (n := b.rOff - b.wOff) (by omega) b.needFlush b.active
      rw [← hlen, take_length, hlen, show b.wOff + (b.rOff - b.wOff) = b.rOff by omega] at hc
      refine ⟨d, hrel, ?_, heof⟩
      rw [hlog, hall]; exact hc
    case isFalse hle =>
      refine writeStep_ensures (fun hw => ⟨acc, hoff, hw.trans hlog, hflow⟩) fun {n w'} _ hn hw => ?_
      rw [length_drop] at hn
      refine ⟨acc, by simp only; omega, ?_, hflow⟩
      rw [hw, hlog, append_assoc, take_add]
  | flush =>
    simp only [step]
    have hflow : ∀ {w' : Tapped ω}, w'.log = w.log → Flow R base data w'.log b reader :=
      fun hw => hw ▸ h
    exact flushStep_ensures hflow hflow

variable {s t : StreamCopy ρ (Tapped ω)}

/-- Nothing the owner can do breaks the law. -/
theorem Owner.inv (ho : Owner s t) (h : s.Inv R base data) : t.Inv R base data := by
  cases ho with
  | resetActive => exact Flow.mapBuf h (fun _ hc => { hc with }) rfl
  | @writeFlush f hf =>
    have hs : WriteFlush.Inv R base data s.reader { buf := s.buf, writer := s.writer } := h
    have hfin := Future.Completes.ensures (fun hI => hI) WriteFlush.step_ensures hs hf
    exact hfin

/-- The law holds at every program point of a run, whatever the owner does between its polls. -/
theorem StreamCopy.inv_visits (hs : s.Inv R base data)
    (h : (future ρ (Tapped ω)).VisitsWith (Relation.ReflTransGen Owner) s t) : t.Inv R base data := by
  refine Future.VisitsWith.inv (Inv R base data) hs.enter ?_ ?_ h
  · intro t u hI hb
    have := pollCopy_ensures hI
    rwa [show t.pollCopy = _ from hb] at this
  · intro t u v hI hb ho
    have hu : u.Inv R base data := by
      have := pollCopy_ensures hI
      rwa [show t.pollCopy = _ from hb] at this
    have hv : v.Inv R base data := by
      induction ho with
      | refl => exact hu
      | tail _ hstep ih => exact hstep.inv ih
    exact hv.enter

/-- A copy from `s` loses, duplicates and reorders nothing: `data` is what its buffer holds at the
    start. -/
structure Lossless (data : Bytes) (s : StreamCopy (Tapped ρ) (Tapped ω)) : Prop where
  always : ∀ t, (StreamCopy.future (Tapped ρ) (Tapped ω)).VisitsWith (Relation.ReflTransGen Owner)
      s t → t.writer.log ++ t.buf.cached = data ++ t.reader.log ∧
        t.buf.wOff ≤ t.buf.rOff ∧ t.buf.rOff ≤ t.buf.buf.length
  ready : ∀ t n u, (StreamCopy.future (Tapped ρ) (Tapped ω)).VisitsWith
      (Relation.ReflTransGen Owner) s t → t.pollCopy = .ret (.ready (.ok n)) u →
        u.writer.log = data ++ u.reader.log ∧ n = u.writer.log.length

theorem lossless_of_inv {s : StreamCopy (Tapped ρ) (Tapped ω)}
    (hs : s.Inv (ReaderSpec.tapped ρ) 0 data) : Lossless data s where
  always := by
    intro t ht
    obtain ⟨d, hd, hcons, -⟩ := StreamCopy.inv_visits hs ht
    have hd' : t.reader.log = d := hd
    exact ⟨by rw [hd']; exact hcons.flow, hcons.w_le, hcons.r_le⟩
  ready := by
    intro t n u ht hb
    have hfin := StreamCopy.pollCopy_ensures (StreamCopy.inv_visits hs ht)
    rw [hb] at hfin
    obtain ⟨⟨d, hd, hcons, -⟩, hcached, -, hn⟩ := hfin
    have hd' : u.reader.log = d := hd
    have hflow := hcons.flow
    rw [hcached, append_nil] at hflow
    exact ⟨by rw [hd']; exact hflow, by omega⟩

/-- Stream copy conserves data, for every reader, every writer and every initial data: whatever
    mix of partial reads, partial writes and stalls they answer with. -/
theorem streamCopy_lossless (config : StreamCopyConfig) (reader : ρ) (writer : ω) :
    Lossless [] (StreamCopy.new (tap reader) (tap writer) config) ∧
    ∀ v : Vec, Lossless v.data (StreamCopy.withData (tap reader) (tap writer) config v) := by
  constructor
  · exact lossless_of_inv ⟨[], rfl, Conserves.new config, fun h => by simp [StreamCopy.new,
      StreamCopyBuffer.new] at h⟩
  · intro v
    exact lossless_of_inv ⟨[], rfl, Conserves.withData config v, fun h => by
      simp [StreamCopy.withData, StreamCopyBuffer.withData] at h⟩

end

end Vey.IoExt
