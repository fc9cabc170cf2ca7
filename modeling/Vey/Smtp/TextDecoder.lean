import Vey.Schemes.DotText
import Vey.Schemes.Loop
import Vey.Schemes.Segments

/-! `TextDataDecodeReader`: the text of a mail with the extra dots taken off.

        buf    [ lines given out | current line | read ahead ]      reader
                                 ^start   ^cacheData ^end

    The reader takes one line at a time out of its buffer, and leaves it in `cacheData` until the
    caller has copied all of it. One `poll_read` may give out many lines. When it then has to wait for
    the stream, it answers `Pending`, and what it has copied so far is lost to the caller. -/

namespace Vey.Smtp
open Schemes List
open Option (getD_none getD_some map_none map_some some)

/-- `buf` is the filled part of a buffer of `size` bytes. -/
structure DataDecodeBuffer where
  size : Nat
  buf : Bytes := []
  start : Nat := 0
  cacheData : Option (Nat × Nat) := none
  readDone : Bool := false

namespace DataDecodeBuffer

def new (bufSize : Nat) : DataDecodeBuffer := { size := bufSize }

variable (b : DataDecodeBuffer)

def pollFillBuf (reader : Source) : IoPoll Nat × DataDecodeBuffer × Source :=
  match reader.pollRead (b.size - b.buf.length) with
  | (.pending, reader) => (.pending, b, reader)
  | (.ready (.error e), reader) => (.ready (.error e), b, reader)
  | (.ready (.ok d), reader) => (.ready (.ok d.length), { b with buf := b.buf ++ d }, reader)

def getLine : Option (Nat × Nat) :=
  if b.buf.length ≤ b.start then none
  else (memchr lf (b.buf.drop b.start)).map fun p => (b.start, b.start + p + 1)

/-- Move what is not given out to the front. -/
def compact : DataDecodeBuffer :=
  { b with buf := b.buf.drop b.start, start := 0 }

def lineTooLong : IoError := ⟨.other, "line too long"⟩

def closedInLine : IoError := ⟨.unexpectedEof, "connection closed while reading line end"⟩

/-- Read more of the line. -/
def lineMore (reader : Source) : Ctrl (DataDecodeBuffer × Source) (IoPoll (Nat × Nat)) :=
  match b.pollFillBuf reader with
  | (.pending, s) => .ret .pending s
  | (.ready (.error e), s) => .ret (.ready (.error e)) s
  | (.ready (.ok nr), s) => if nr = 0 then .ret (.ready (.error closedInLine)) s else .next s

/-- One round of `poll_line`. -/
def pollLine (s : DataDecodeBuffer × Source) :
    Ctrl (DataDecodeBuffer × Source) (IoPoll (Nat × Nat)) :=
  match s.1.getLine with
  | some v => .ret (.ready (.ok v)) s
  | none =>
    if 0 < s.1.start then s.1.compact.lineMore s.2
    else if s.1.size ≤ s.1.buf.length then .ret (.ready (.error lineTooLong)) s
    else s.1.lineMore s.2

/-- What is left of the current line. -/
def cache : Bytes :=
  match b.cacheData with
  | some (start, stop) => win b.buf start stop
  | none => []

end DataDecodeBuffer

/-- A call of `poll_read`: the room left in the caller's buffer, and what was copied into it. -/
structure ReadCall where
  reader : Source
  buf : DataDecodeBuffer
  room : Nat
  filled : Bytes := []

namespace ReadCall

variable (c : ReadCall)

/-- The line `[start, stop)` becomes the current one, or ends the text. -/
def takeLine (start stop : Nat) : Ctrl ReadCall (IoPoll Unit) :=
  if (win c.buf.buf start stop).head? = some 46 then
    if win c.buf.buf start stop = endLine then
      .ret (.ready (.ok ())) { c with buf := { c.buf with readDone := true } }
    else .next { c with buf := { c.buf with cacheData := some (start + 1, stop) } }
  else .next { c with buf := { c.buf with cacheData := some (start, stop) } }

/-- Copy what is left of the current line, or as much as there is room for. -/
def copyCache (dataStart dataEnd : Nat) : Ctrl ReadCall (IoPoll Unit) :=
  if c.room ≤ (win c.buf.buf dataStart dataEnd).length then
    .ret (.ready (.ok ())) { c with
      buf := { c.buf with cacheData := some (dataStart + c.room, dataEnd) }
      room := 0
      filled := c.filled ++ (win c.buf.buf dataStart dataEnd).take c.room }
  else
    .next { c with
      buf := { c.buf with cacheData := none, start := dataEnd }
      room := c.room - (win c.buf.buf dataStart dataEnd).length
      filled := c.filled ++ win c.buf.buf dataStart dataEnd }

/-- One round of the loop of `poll_read`. -/
def step : Ctrl ReadCall (IoPoll Unit) :=
  match c.buf.cacheData with
  | some (dataStart, dataEnd) => c.copyCache dataStart dataEnd
  | none =>
    (DataDecodeBuffer.pollLine (c.buf, c.reader)).await
      (fun s => { c with buf := s.1, reader := s.2 }) id
      fun v s => { c with buf := s.1, reader := s.2 }.takeLine v.1 v.2

/-- Every round copies a line, takes a line or reads. -/
def rounds : Nat :=
  3 * c.reader.content.length + 2 * (c.buf.buf.length - c.buf.start) +
    if c.buf.cacheData = none then 1 else 0

end ReadCall

structure TextDataDecodeReader where
  inner : Source
  buf : DataDecodeBuffer

namespace TextDataDecodeReader

def new (inner : Source) (bufSize : Nat) : TextDataDecodeReader := ⟨inner, .new bufSize⟩

variable (r : TextDataDecodeReader)

def finished : Bool := r.buf.readDone

def enter (cap : Nat) : ReadCall := ⟨r.inner, r.buf, cap, []⟩

/-- What a call answers, and what it leaves. -/
def answer : IoPoll Unit × ReadCall → IoPoll Bytes × TextDataDecodeReader
  | (.pending, c) => (.pending, ⟨c.reader, c.buf⟩)
  | (.ready (.error e), c) => (.ready (.error e), ⟨c.reader, c.buf⟩)
  | (.ready (.ok ()), c) => (.ready (.ok c.filled), ⟨c.reader, c.buf⟩)

/-- The budget of rounds is never used up. -/
def pollRead (cap : Nat) : IoPoll Bytes × TextDataDecodeReader :=
  if r.buf.readDone then (.ready (.ok []), r)
  else
    match iter ReadCall.step ((r.enter cap).rounds + 1) (r.enter cap) with
    | some res => answer res
    | none => (.pending, r)

end TextDataDecodeReader

/-! ### The buffer and the stream -/

variable {x y : Nat}

namespace DataDecodeBuffer

/-- Where the bytes begin that belong to no line yet. -/
def ahead (b : DataDecodeBuffer) : Nat := (b.cacheData.map Prod.snd).getD b.start

/-- The lines `done` were taken off the stream, and of their text `out` was copied to the caller. -/
structure Inv (stream out : Bytes) (done : List Bytes) (b : DataDecodeBuffer) (reader : Source) :
    Prop where
  message : IsMessage done
  fit : ∀ l ∈ done, l.length ≤ b.size
  split : stream = done.flatten ++ (b.buf.drop b.ahead ++ reader.content)
  text : out ++ b.cache = (done.map undot).flatten
  start_le : b.start ≤ b.buf.length
  full : b.buf.length ≤ b.size
  cached : ∀ {x y}, b.cacheData = some (x, y) →
    b.start ≤ x ∧ x ≤ y ∧ b.start < y ∧ y ≤ b.buf.length
  ended : b.readDone = true → b.cacheData = none ∧ endLine <+: b.buf.drop b.start

theorem inv_new (reader : Source) (bufSize : Nat) :
    (new bufSize).Inv reader.content [] [] reader where
  message := nofun
  fit := nofun
  split := rfl
  text := rfl
  start_le := Nat.le_refl _
  full := Nat.zero_le _
  cached := nofun
  ended := nofun

/-- How much of the stream the caller has not been given yet, stalls included. -/
def behind (b : DataDecodeBuffer) (reader : Source) : Nat :=
  reader.events.length + (b.buf.length - (b.cacheData.map Prod.fst).getD b.start)

variable {b : DataDecodeBuffer} {reader : Source} {stream out : Bytes} {done : List Bytes}

theorem getLine_none (h : b.getLine = none) : lf ∉ b.buf.drop b.start := by
  unfold getLine at h
  split at h
  case isTrue hle =>
    rw [drop_of_length_le hle]
    exact not_mem_nil
  case isFalse =>
    rw [Option.map_eq_none_iff] at h
    exact memchr_none h

/-- A line at the start of what is not given out. -/
theorem getLine_some (h : b.getLine = some (x, y)) : x = b.start ∧ b.start < y ∧
    y ≤ b.buf.length ∧ IsLine (win b.buf b.start y) ∧
    b.buf.drop b.start = win b.buf b.start y ++ b.buf.drop y := by
  unfold getLine at h
  split at h
  case isTrue => cases h
  case isFalse hlt =>
    obtain ⟨p, hp, heq⟩ := Option.map_eq_some_iff.mp h
    obtain ⟨rfl, rfl⟩ := Prod.mk.inj heq
    have hle := memchr_lt hp
    rw [length_drop] at hle
    have hwin : win b.buf b.start (b.start + p + 1) = (b.buf.drop b.start).take (p + 1) := by
      rw [win, show b.start + p + 1 - b.start = p + 1 by omega]
    refine ⟨rfl, by omega, by omega, ?_, ?_⟩
    · rw [hwin, memchr_take hp]
      exact ⟨_, (memchr_some hp).1, rfl⟩
    · rw [hwin, show b.start + p + 1 = b.start + (p + 1) by omega, ← drop_drop,
        take_append_drop]

section
variable (h : b.Inv stream out done reader)
include h

section

variable (hdone : b.readDone = false)

include hdone

/-- The line that was found is the next one of the stream. -/
theorem Inv.line (hnone : b.cacheData = none) (hline : b.getLine = some (b.start, y))
    (hne : win b.buf b.start y ≠ endLine) (hx : b.start ≤ x ∧ x ≤ y)
    (hwin : win b.buf x y = undot (win b.buf b.start y)) :
    { b with cacheData := some (x, y) }.Inv stream out (done ++ [win b.buf b.start y]) reader := by
  obtain ⟨-, hlt, hle, hisLine, hdrop⟩ := getLine_some hline
  have hsplit := h.split
  have htext := h.text
  simp only [ahead, hnone, map_none, getD_none] at hsplit
  simp only [cache, hnone, append_nil] at htext
  refine ⟨?_, ?_, ?_, ?_, h.start_le, h.full, ?_, ?_⟩
  · intro l hl
    rcases mem_append.mp hl with hl | hl
    · exact h.message l hl
    · rw [mem_singleton.mp hl]
      exact ⟨hisLine, hne⟩
  · intro l hl
    rcases mem_append.mp hl with hl | hl
    · exact h.fit l hl
    · rw [mem_singleton.mp hl, win_length hle]
      have := h.full
      exact (Nat.sub_le _ _).trans (hle.trans this)
  · rw [hsplit, hdrop]
    simp [ahead]
  · simp only [cache, htext, map_append, map_cons, map_nil, flatten_append,
      flatten_singleton, hwin]
  · intro x' y' heq
    obtain ⟨rfl, rfl⟩ := Prod.mk.inj (some.inj heq)
    exact ⟨hx.1, hx.2, hlt, hle⟩
  · intro hend
    rw [hdone] at hend
    cases hend

theorem Inv.compact (hnone : b.cacheData = none) : b.compact.Inv stream out done reader where
  message := h.message
  fit := h.fit
  split := by
    have := h.split
    simp only [ahead, hnone, map_none, getD_none] at this
    simpa [ahead, DataDecodeBuffer.compact, hnone] using this
  text := by
    have := h.text
    simp only [cache, hnone] at this
    simpa [cache, DataDecodeBuffer.compact, hnone] using this
  start_le := Nat.zero_le _
  full := by
    have := h.full
    simp only [DataDecodeBuffer.compact, length_drop]
    omega
  cached := by
    intro x y heq
    rw [DataDecodeBuffer.compact, hnone] at heq
    cases heq
  ended := by
    intro hend
    rw [DataDecodeBuffer.compact, hdone] at hend
    cases hend

/-- Bytes that were read go behind the others. -/
theorem Inv.fill {d : Bytes} {reader' : Source} (hnone : b.cacheData = none)
    (hread : d ++ reader'.content = reader.content) (hroom : d.length ≤ b.size - b.buf.length) :
    { b with buf := b.buf ++ d }.Inv stream out done reader' where
  message := h.message
  fit := h.fit
  split := by
    have hsplit := h.split
    simp only [ahead, hnone, map_none, getD_none] at hsplit ⊢
    rw [hsplit, ← hread, drop_append_of_le_length h.start_le, append_assoc]
  text := by
    have htext := h.text
    simpa only [cache, hnone] using htext
  start_le := by
    have := h.start_le
    rw [length_append]
    exact this.trans (Nat.le_add_right _ _)
  full := by
    have := h.full
    simp only [length_append]
    omega
  cached := by
    intro x y heq
    rw [hnone] at heq
    cases heq
  ended := by
    intro hend
    rw [hdone] at hend
    cases hend

/-- Copying takes text from the cached line. -/
theorem Inv.copy {x y n : Nat} (hsome : b.cacheData = some (x, y))
    (hn : n ≤ (win b.buf x y).length) :
    { b with cacheData := some (x + n, y) }.Inv stream (out ++ (win b.buf x y).take n) done
      reader := by
  obtain ⟨hstart, hxy, hlt, hy⟩ := h.cached hsome
  rw [win_length hy] at hn
  have hsplit := h.split
  have htext := h.text
  simp only [ahead, hsome, map_some, getD_some] at hsplit
  simp only [cache, hsome] at htext
  refine ⟨h.message, h.fit, ?_, ?_, h.start_le, h.full, ?_, ?_⟩
  · simpa only [ahead, map_some, getD_some] using hsplit
  · simp only [cache]
    rw [win_drop, append_assoc, take_append_drop, htext]
  · intro x' y' heq
    obtain ⟨rfl, rfl⟩ := Prod.mk.inj (some.inj heq)
    exact ⟨Nat.le_add_right_of_le hstart, by omega, hlt, hy⟩
  · intro hend
    rw [hdone] at hend
    cases hend

/-- Behind the cached line the next one starts. -/
theorem Inv.pass (hsome : b.cacheData = some (x, y)) :
    { b with cacheData := none, start := y }.Inv stream (out ++ win b.buf x y) done reader := by
  obtain ⟨-, -, -, hy⟩ := h.cached hsome
  have hsplit := h.split
  have htext := h.text
  simp only [ahead, hsome, map_some, getD_some] at hsplit
  simp only [cache, hsome] at htext
  refine ⟨h.message, h.fit, hsplit, ?_, hy, h.full, nofun, ?_⟩
  · simpa only [cache, append_nil] using htext
  · intro hend
    rw [hdone] at hend
    cases hend

end

/-- The line that ends the text is left in the buffer. -/
theorem Inv.endOfText (hnone : b.cacheData = none)
    (hline : b.getLine = some (b.start, y)) (heq : win b.buf b.start y = endLine) :
    { b with readDone := true }.Inv stream out done reader where
  message := h.message
  fit := h.fit
  split := h.split
  text := h.text
  start_le := h.start_le
  full := h.full
  cached := h.cached
  ended := by
    intro _
    refine ⟨hnone, ?_⟩
    have hdrop := (getLine_some hline).2.2.2.2
    rw [heq] at hdrop
    exact hdrop ▸ prefix_append _ _

end

end DataDecodeBuffer

open DataDecodeBuffer (ahead cache compact getLine_none getLine_some lineMore pollFillBuf pollLine)

/-! ### The rounds of a call -/

namespace ReadCall

/-- The next round waits for the stream. -/
def Waits (c : ReadCall) : Prop :=
  c.buf.cacheData = none ∧ c.buf.getLine = none ∧ ∃ reader, .stall :: reader = c.reader.events

/-- The next round waits for the stream, after bytes were copied. -/
def Loses (c : ReadCall) : Prop := c.filled ≠ [] ∧ c.Waits

/-- A line that is longer than the buffer, the end of the stream in a line, or a failing stream. -/
def Stuck (c : ReadCall) : Prop :=
  c.buf.cacheData = none ∧ lf ∉ c.buf.buf.drop c.buf.start ∧
    ((c.buf.start = 0 ∧ c.buf.size ≤ c.buf.buf.length) ∨ c.reader.content = [] ∨
      ∃ e, .fail e ∈ c.reader.arrivals)

/-- The program points of a call. -/
def Steps : ReadCall → ReadCall → Prop := Relation.ReflTransGen fun c c' => c.step = .next c'

def behind (c : ReadCall) : Nat := c.buf.behind c.reader

/-- What every read keeps that is made for want of a line. -/
def Keeps (stream : Bytes) (J : Source → Prop) : Prop :=
  ∀ {b : DataDecodeBuffer} {reader : Source} {out : Bytes} {done : List Bytes},
    b.Inv stream out done reader → b.cacheData = none → b.getLine = none → J reader →
    ∀ cap, J (reader.pollRead cap).2

/-- A call that began in `c₀`, when `out` had been copied. -/
structure Underway (J : Source → Prop) (stream out : Bytes) (c₀ c : ReadCall) : Prop where
  inv : ∃ done, c.buf.Inv stream (out ++ c.filled) done c.reader
  kept : J c.reader
  alive : c.buf.readDone = false
  room : c.filled.length + c.room = c₀.room
  less : c.behind + c.filled.length ≤ c₀.behind
  size : c.buf.size = c₀.buf.size
  path : Steps c₀ c

/-- What a round of such a call does. -/
def Steps.To (J : Source → Prop) (stream out : Bytes) (c₀ c : ReadCall) :
    Ctrl ReadCall (IoPoll Unit) → Prop
  | .next c' => Underway J stream out c₀ c' ∧ c'.rounds < c.rounds
  | .ret .pending c' => Underway J stream out c₀ c ∧ c.Waits ∧
      (∃ done, c'.buf.Inv stream (out ++ c.filled) done c'.reader) ∧ J c'.reader ∧
      c'.behind < c₀.behind ∧ c'.buf.size = c₀.buf.size
  | .ret (.ready (.ok ())) c' =>
      (∃ done, c'.buf.Inv stream (out ++ c'.filled) done c'.reader) ∧ J c'.reader ∧
      c'.behind + c'.filled.length ≤ c₀.behind ∧ c'.buf.size = c₀.buf.size ∧
      (c'.buf.readDone = true ∨ c'.filled.length = c₀.room)
  | .ret (.ready (.error _)) _ => Underway J stream out c₀ c ∧ c.Stuck

variable {J : Source → Prop} {stream out : Bytes} {c₀ c : ReadCall}

theorem pollLine_none {s : DataDecodeBuffer × Source} (h : s.1.getLine = none)
    (hroom : s.1.start = 0 → s.1.buf.length < s.1.size) :
    pollLine s = s.1.compact.lineMore s.2 := by
  unfold pollLine
  rw [h]
  dsimp only
  split
  case isTrue => rfl
  case isFalse hpos =>
    have hzero : s.1.start = 0 := by omega
    have hsame : s.1.compact = s.1 := by
      simp only [compact, hzero, drop_zero]
      rw [← hzero]
    rw [if_neg (Nat.not_le_of_lt (hroom hzero)), hsame]

section
variable (h : Underway J stream out c₀ c)
include h

/-- A round that copies. -/
theorem Underway.copies
    (hsome : c.buf.cacheData = some (x, y)) : Steps.To J stream out c₀ c c.step := by
  obtain ⟨done, hinv⟩ := h.inv
  obtain ⟨hstart, hxy, hlt, hy⟩ := hinv.cached hsome
  have hlen : (win c.buf.buf x y).length = y - x := win_length hy
  have hless := h.less
  have hroom := h.room
  simp only [behind, DataDecodeBuffer.behind, hsome, map_some, getD_some] at hless
  have hstep : c.step = c.copyCache x y := by rw [step, hsome]
  unfold copyCache at hstep
  split at hstep
  case isTrue hle =>
    rw [hstep]
    refine ⟨⟨done, ?_⟩, h.kept, ?_, h.size, .inr ?_⟩
    · rw [← append_assoc]
      exact hinv.copy h.alive hsome hle
    · simp only [behind, DataDecodeBuffer.behind, map_some, getD_some,
        length_append, length_take]
      omega
    · simp only [length_append, length_take]
      omega
  case isFalse hle =>
    rw [hstep]
    refine ⟨⟨⟨done, ?_⟩, h.kept, h.alive, ?_, ?_, h.size, h.path.tail hstep⟩, ?_⟩
    · rw [← append_assoc]
      exact hinv.pass h.alive hsome
    · simp only [length_append]
      omega
    · simp only [behind, DataDecodeBuffer.behind, map_none, getD_none,
        length_append]
      omega
    · simp only [rounds, hsome, reduceCtorEq, if_false, if_true]
      omega

/-- A round that finds a line. -/
theorem Underway.takes (hnone : c.buf.cacheData = none)
    (hline : c.buf.getLine = some (x, y)) : Steps.To J stream out c₀ c c.step := by
  obtain ⟨done, hinv⟩ := h.inv
  obtain ⟨rfl, hlt, hle, hisLine, -⟩ := getLine_some hline
  have hless := h.less
  simp only [behind, DataDecodeBuffer.behind, hnone, map_none, getD_none] at hless
  have hstep : c.step = c.takeLine c.buf.start y := by
    rw [step, hnone]
    rw [pollLine, hline]
    rfl
  unfold takeLine at hstep
  split at hstep
  case isTrue hdot =>
    split at hstep
    case isTrue heq =>
      rw [hstep]
      refine ⟨⟨done, hinv.endOfText hnone hline heq⟩, h.kept, ?_, h.size, .inl rfl⟩
      simpa only [behind, DataDecodeBuffer.behind, hnone, map_none, getD_none]
        using hless
    case isFalse hne =>
      rw [hstep]
      have hundot : win c.buf.buf (c.buf.start + 1) y = undot (win c.buf.buf c.buf.start y) := by
        rw [undot, if_pos hdot, win_drop, drop_one]
      refine ⟨⟨⟨_, hinv.line h.alive hnone hline hne ⟨Nat.le_succ _, hlt⟩ hundot⟩, h.kept, h.alive,
        h.room, ?_, h.size, h.path.tail hstep⟩, ?_⟩
      · simp only [behind, DataDecodeBuffer.behind, map_some, getD_some]
        omega
      · simp [rounds, hnone]
  case isFalse hdot =>
    rw [hstep]
    have hne : win c.buf.buf c.buf.start y ≠ endLine := by
      intro heq
      rw [heq] at hdot
      exact hdot rfl
    have hundot : win c.buf.buf c.buf.start y = undot (win c.buf.buf c.buf.start y) := by
      rw [undot, if_neg hdot]
    refine ⟨⟨⟨_, hinv.line h.alive hnone hline hne ⟨Nat.le_refl _, Nat.le_of_lt hlt⟩ hundot⟩,
      h.kept, h.alive, h.room, ?_, h.size, h.path.tail hstep⟩, ?_⟩
    · simpa only [behind, DataDecodeBuffer.behind, map_some, getD_some] using hless
    · simp [rounds, hnone]

/-- A round that reads. -/
theorem Underway.reads (hJ : Keeps stream J) (hnone : c.buf.cacheData = none)
    (hline : c.buf.getLine = none) :
    Steps.To J stream out c₀ c c.step := by
  obtain ⟨done, hinv⟩ := h.inv
  have hless := h.less
  have hfull := hinv.full
  have hstart := hinv.start_le
  simp only [behind, DataDecodeBuffer.behind, hnone, map_none, getD_none] at hless
  have hlf := getLine_none hline
  by_cases hlong : c.buf.start = 0 ∧ c.buf.size ≤ c.buf.buf.length
  · have hstep : ∃ e c', c.step = .ret (.ready (.error e)) c' := by
      rw [step, hnone]
      rw [pollLine, hline]
      dsimp only
      rw [if_neg (by omega), if_pos hlong.2]
      exact ⟨_, _, rfl⟩
    obtain ⟨e, c', hstep⟩ := hstep
    rw [hstep]
    exact ⟨h, hnone, hlf, .inl hlong⟩
  · have hcompact := hinv.compact h.alive hnone
    have hmore := pollLine_none (s := (c.buf, c.reader)) hline (by dsimp only; omega)
    have hstep : c.step = (c.buf.compact.lineMore c.reader).await
        (fun s => { c with buf := s.1, reader := s.2 }) id
        fun v s => { c with buf := s.1, reader := s.2 }.takeLine v.1 v.2 := by
      rw [step, hnone]
      rw [hmore]
    have hcap : 0 < c.buf.compact.size - c.buf.compact.buf.length := by
      simp only [compact, length_drop]
      omega
    have hcn : c.buf.compact.cacheData = none := hnone
    have hca : c.buf.compact.readDone = false := h.alive
    rw [lineMore, pollFillBuf] at hstep
    have hkept := hJ hinv hnone hline h.kept (c.buf.compact.size - c.buf.compact.buf.length)
    rcases hp : c.reader.pollRead (c.buf.compact.size - c.buf.compact.buf.length) with ⟨_ | ⟨e | d⟩, r'⟩
    · rw [hp] at hstep
      rw [hstep]
      have hev := Source.pollRead_events.2 hp
      refine ⟨h, ⟨hnone, hline, _, hev⟩, ⟨done, ?_⟩, ?_, ?_, h.size⟩
      · have hsplit := hcompact.split
        rw [← Source.pollRead_pending hp] at hsplit
        exact ⟨hcompact.message, hcompact.fit, hsplit, hcompact.text, hcompact.start_le,
          hcompact.full, hcompact.cached, hcompact.ended⟩
      · rwa [hp] at hkept
      · have hlen := congrArg length hev
        simp only [length_cons] at hlen
        simp only [behind, DataDecodeBuffer.behind, hcn, map_none, getD_none]
        simp only [compact, length_drop] at hlen ⊢
        omega
    · rw [hp] at hstep
      rw [hstep]
      exact ⟨h, hnone, hlf, .inr (.inr ⟨e, Source.pollRead_error hp⟩)⟩
    · rw [hp] at hstep
      obtain ⟨hcont, hle, hend⟩ := Source.pollRead_ok hp
      have hev := Source.pollRead_events.1 hp
      cases d with
      | nil =>
        rw [hstep]
        refine ⟨h, hnone, hlf, .inr (.inl ?_)⟩
        rw [← hcont, hend hcap rfl]
        rfl
      | cons z d =>
        have hstep' : c.step = .next { c with
            buf := { c.buf.compact with buf := c.buf.compact.buf ++ z :: d }, reader := r' } := by
          rw [hstep]
          rfl
        rw [hstep']
        rw [hp] at hkept
        have hlen := congrArg length hev
        have hclen := congrArg length hcont
        simp only [length_append, length_map, length_cons] at hlen hclen
        refine ⟨⟨⟨done, hcompact.fill hca hcn hcont hle⟩,
          hkept, h.alive, h.room, ?_, h.size, h.path.tail hstep'⟩, ?_⟩
        · simp only [behind, DataDecodeBuffer.behind, hcn, map_none, getD_none]
          simp only [compact, length_append, length_drop,
            length_cons]
          omega
        · simp only [rounds, hcn, hnone, if_true]
          simp only [compact, length_append, length_drop,
            length_cons]
          omega

theorem Underway.step (hJ : Keeps stream J) : Steps.To J stream out c₀ c c.step := by
  cases hcache : c.buf.cacheData with
  | some v => exact h.copies hcache
  | none =>
    cases hline : c.buf.getLine with
    | some v => exact h.takes hcache hline
    | none => exact h.reads hJ hcache hline

/-- While lines that fit the buffer are still ahead, a call does not fail. -/
theorem Underway.not_stuck {lines : List Bytes} {rest : Bytes}
    (hstream : stream = lines.flatten ++ (endLine ++ rest)) (hlines : IsMessage lines)
    (hfit : ∀ l ∈ lines ++ [endLine], l.length ≤ c.buf.size) (hclean : c.reader.Unfailing) :
    ¬ c.Stuck := by
  rintro ⟨hnone, hlf, hwhy⟩
  obtain ⟨done, hinv⟩ := h.inv
  have hsplit := hinv.split
  simp only [ahead, hnone, map_none, getD_none] at hsplit
  obtain ⟨todo, rfl, hahead⟩ := hinv.message.ahead hlines (hsplit ▸ hstream)
  -- the first line ahead, of which the buffer holds a part only
  obtain ⟨l, more, hl, hisLine, heq⟩ : ∃ l more, l ∈ (done ++ todo) ++ [endLine] ∧ IsLine l ∧
      c.buf.buf.drop c.buf.start ++ c.reader.content = l ++ more := by
    cases todo with
    | nil => exact ⟨endLine, rest, by simp, isLine_endLine, by simpa using hahead⟩
    | cons l todo =>
      refine ⟨l, todo.flatten ++ (endLine ++ rest), by simp, (hlines l (by simp)).1, ?_⟩
      rw [hahead, flatten_cons, append_assoc]
  obtain ⟨a, -, rfl⟩ := hisLine
  have hshort : (c.buf.buf.drop c.buf.start).length ≤ a.length := by
    by_contra hlong
    refine hlf ?_
    have htake := congrArg (take (a.length + 1)) heq
    rw [take_append_of_le_length (by omega), take_left' (by simp)] at htake
    have : lf ∈ (c.buf.buf.drop c.buf.start).take (a.length + 1) := by rw [htake]; simp
    exact take_subset _ _ this
  have hsize := hfit _ hl
  rw [length_append, length_singleton] at hsize
  rw [length_drop] at hshort
  rcases hwhy with ⟨hzero, hfull⟩ | hnil | ⟨e, he⟩
  · omega
  · rw [hnil, append_nil] at heq
    have := congrArg length heq
    simp only [length_append, length_singleton, length_drop] at this
    omega
  · exact hclean e he

end

end ReadCall

/-! ### Calls -/

namespace TextDataDecodeReader

/-- What was copied to the caller so far is the text of the lines taken off the stream. -/
def Inv (stream out : Bytes) (r : TextDataDecodeReader) : Prop :=
  ∃ done, r.buf.Inv stream out done r.inner

def behind (r : TextDataDecodeReader) : Nat := r.buf.behind r.inner

/-- No round of the call waits for the stream after bytes were copied. -/
def SafeCall (r : TextDataDecodeReader) (cap : Nat) : Prop :=
  ∀ c, (r.enter cap).Steps c → ¬ c.Loses

variable {J : Source → Prop} {stream out : Bytes} {r r' : TextDataDecodeReader} {cap : Nat}

theorem inv_new (inner : Source) (bufSize : Nat) : (new inner bufSize).Inv inner.content [] :=
  ⟨[], DataDecodeBuffer.inv_new inner bufSize⟩

section

variable (h : r.Inv stream out)

include h

theorem Inv.enter (hJ : J r.inner) (hfin : r.finished = false) (cap : Nat) :
    ReadCall.Underway J stream out (r.enter cap) (r.enter cap) where
  inv := by
    obtain ⟨done, hinv⟩ := h
    exact ⟨done, by simpa only [TextDataDecodeReader.enter, append_nil] using hinv⟩
  kept := hJ
  alive := hfin
  room := Nat.zero_add _
  less := Nat.le_refl _
  size := rfl
  path := .refl

/-- A call answers what its last round answers. -/
theorem Inv.pollRead (hJ : ReadCall.Keeps stream J) (hr : J r.inner) (hfin : r.finished = false)
    (cap : Nat) : ∃ c a c',
    ReadCall.Underway J stream out (r.enter cap) c ∧ c.step = .ret a c' ∧
    r.pollRead cap = answer (a, c') := by
  have hnext : ∀ c c', ReadCall.Underway J stream out (r.enter cap) c → c.step = .next c' →
      ReadCall.Underway J stream out (r.enter cap) c' ∧ c'.rounds < c.rounds := by
    intro c c' hc hstep
    have := hc.step hJ
    rwa [hstep] at this
  have hstart := h.enter hr hfin cap
  have hsome := iter_isSome _ ReadCall.rounds hnext hstart (Nat.lt_succ_self _)
  obtain ⟨⟨a, c'⟩, hiter⟩ := Option.isSome_iff_exists.mp hsome
  obtain ⟨c, hc, hstep⟩ := iter_inv _ (fun c c' hc hs => (hnext c c' hc hs).1) hstart hiter
  refine ⟨c, a, c', hc, hstep, ?_⟩
  rw [TextDataDecodeReader.pollRead, if_neg (by simpa [finished] using hfin), hiter]

/-- The call gets to the end, or nearer to it if there is room for a byte. -/
def Nears (r : TextDataDecodeReader) (cap : Nat) (r' : TextDataDecodeReader) : Prop :=
  r'.finished = true ∨ (¬ r.finished = true ∧ r'.behind + min 1 cap ≤ r.behind)

/-- What a call does; `out` and what it copied is the text taken so far, but when the call waits for the
    stream the caller does not get what was copied. -/
def Called (J : Source → Prop) (stream out : Bytes) (r : TextDataDecodeReader) (cap : Nat) :
    IoPoll Bytes × TextDataDecodeReader → Prop
  | (.ready (.error _), _) => ∃ c, ReadCall.Underway J stream out (r.enter cap) c ∧ c.Stuck
  | (.ready (.ok x), r') =>
      r'.Inv stream (out ++ x) ∧ J r'.inner ∧ r'.buf.size = r.buf.size ∧ r.Nears cap r'
  | (.pending, r') => ∃ x, (r.SafeCall cap → x = []) ∧
      r'.Inv stream (out ++ x) ∧ J r'.inner ∧ r'.buf.size = r.buf.size ∧ r.Nears cap r'

theorem Inv.called (hJ : ReadCall.Keeps stream J) (hr : J r.inner) (cap : Nat) :
    Called J stream out r cap (r.pollRead cap) := by
  cases hfin : r.finished with
  | true =>
    have hp : r.pollRead cap = (.ready (.ok []), r) := by
      rw [TextDataDecodeReader.pollRead, if_pos (by simpa [finished] using hfin)]
    rw [hp]
    refine ⟨?_, hr, rfl, .inl hfin⟩
    rwa [append_nil]
  | false =>
    obtain ⟨c, a, c', hc, hstep, hp⟩ := h.pollRead hJ hr hfin cap
    have hto := hc.step hJ
    have hnot : ¬ r.finished = true := by simp [hfin]
    rw [hp]
    rw [hstep] at hto
    rcases a with _ | ⟨e | u⟩
    · obtain ⟨-, hwaits, hinv, hkept, hless, hsize⟩ := hto
      refine ⟨c.filled, ?_, hinv, hkept, hsize, .inr ⟨hnot, ?_⟩⟩
      · intro hsafe
        by_contra hne
        exact hsafe c hc.path ⟨hne, hwaits⟩
      · change c'.behind + min 1 cap ≤ (r.enter cap).behind
        omega
    · exact ⟨c, hto⟩
    · obtain ⟨hinv, hkept, hless, hsize, hlast⟩ := hto
      refine ⟨hinv, hkept, hsize, hlast.imp id fun hlen => ⟨hnot, ?_⟩⟩
      change c'.behind + min 1 cap ≤ (r.enter cap).behind
      change c'.filled.length = cap at hlen
      omega

/-- A call that does not fail keeps the invariant. -/
theorem Inv.kept (hJ : ReadCall.Keeps stream J) (hr : J r.inner) {a : IoPoll Bytes}
    (hp : r.pollRead cap = (a, r')) (ha : ∀ e, a ≠ .ready (.error e)) :
    (∃ out', r'.Inv stream out') ∧ J r'.inner ∧ r'.buf.size = r.buf.size := by
  have hcalled := h.called hJ hr cap
  rw [hp] at hcalled
  rcases a with _ | ⟨e | x⟩
  · obtain ⟨x, -, hinv, hkept, hsize, -⟩ := hcalled
    exact ⟨⟨_, hinv⟩, hkept, hsize⟩
  · exact absurd rfl (ha e)
  · obtain ⟨hinv, hkept, hsize, -⟩ := hcalled
    exact ⟨⟨_, hinv⟩, hkept, hsize⟩

/-- Where the reader has finished, the stream had an end, and every line of the text fitted. -/
theorem Inv.ended (hfin : r.finished = true) : ∃ lines rest,
    IsMessage lines ∧ stream = lines.flatten ++ (endLine ++ rest) ∧
    out = (lines.map undot).flatten ∧ (∀ l ∈ lines ++ [endLine], l.length ≤ r.buf.size) ∧
    ∃ more, rest = more ++ r.inner.content ∧ r.buf.buf.drop r.buf.start = endLine ++ more := by
  obtain ⟨done, hinv⟩ := h
  obtain ⟨hnone, more, hmore⟩ := hinv.ended hfin
  have hsplit := hinv.split
  have htext := hinv.text
  simp only [ahead, hnone, map_none, getD_none] at hsplit
  simp only [cache, hnone, append_nil] at htext
  refine ⟨done, more ++ r.inner.content, hinv.message, ?_, htext, ?_, more, rfl, hmore.symm⟩
  · rw [hsplit, ← hmore, append_assoc]
  · intro l hl
    rcases mem_append.mp hl with hl | hl
    · exact hinv.fit l hl
    · rw [mem_singleton.mp hl]
      have hfull := hinv.full
      have hlen := congrArg length hmore
      simp only [length_append, length_drop] at hlen
      omega

end

end TextDataDecodeReader

end Vey.Smtp
