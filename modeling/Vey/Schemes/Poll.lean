import Vey.Schemes.Bytes

/-! Polled byte streams: what one `poll_*` call on a reader or a writer can answer.

    `AsyncRead` and `AsyncWrite` are any reader and any writer: a state, the answer of a call and
    the next state. All that is assumed of them is that a read returns at most the asked number
    of bytes and that a write accepts at most the offered ones. `Tapped` records what went through
    a reader or a writer.

    `Source` is a buffered reader driven by a script: the slices in which the stream arrives, with
    any stalls between them. `Sink` is a writer driven by a script.

        buffered            arrivals
        [ b b b b ]   slice, stall, slice, ... , EOF -/

namespace Vey.Schemes

open List

/-- The answer of a `poll_*` call. -/
inductive Poll (α : Type) where
  | pending
  | ready (a : α)
  deriving DecidableEq

inductive ErrorKind where
  | unexpectedEof
  | invalidData
  | writeZero
  | other
  deriving DecidableEq

structure IoError where
  kind : ErrorKind
  msg : String
  deriving DecidableEq

/-- The answer of a fallible `poll_*` call. -/
abbrev IoPoll (α : Type) := Poll (Except IoError α)

/-! ### Any reader, any writer -/

/-- A reader: `pollRead r cap` answers with at most `cap` bytes. -/
class AsyncRead (ρ : Type) where
  pollRead : ρ → Nat → IoPoll Bytes × ρ
  pollRead_le : ∀ {r : ρ} {cap : Nat} {d : Bytes} {r' : ρ},
    pollRead r cap = (.ready (.ok d), r') → d.length ≤ cap

/-- A writer: `pollWrite w b` accepts at most the bytes of `b`. -/
class AsyncWrite (ω : Type) where
  pollWrite : ω → Bytes → IoPoll Nat × ω
  pollFlush : ω → IoPoll Unit × ω
  pollWrite_le : ∀ {w : ω} {b : Bytes} {n : Nat} {w' : ω},
    pollWrite w b = (.ready (.ok n), w') → n ≤ b.length

export AsyncRead (pollRead)
export AsyncWrite (pollWrite pollFlush)

/-- A stream together with the bytes that went through it. -/
structure Tapped (σ : Type) where
  inner : σ
  log : Bytes
  deriving DecidableEq

/-- Wrap a stream before its first use. -/
def tap {σ : Type} (s : σ) : Tapped σ := ⟨s, []⟩

/-- The log after a read answered `r`. -/
def deliveredBy : IoPoll Bytes → Bytes
  | .ready (.ok d) => d
  | _ => []

/-- The part of `b` that a write answering `r` accepted. -/
def acceptedBy (b : Bytes) : IoPoll Nat → Bytes
  | .ready (.ok n) => b.take n
  | _ => []

instance {ρ : Type} [AsyncRead ρ] : AsyncRead (Tapped ρ) where
  pollRead t cap :=
    let (r, s) := pollRead t.inner cap
    (r, ⟨s, t.log ++ deliveredBy r⟩)
  pollRead_le := by
    intro t cap d t' h
    simp only [Prod.mk.injEq] at h
    exact AsyncRead.pollRead_le (Prod.ext h.1 rfl)

instance {ω : Type} [AsyncWrite ω] : AsyncWrite (Tapped ω) where
  pollWrite t b :=
    let (r, s) := pollWrite t.inner b
    (r, ⟨s, t.log ++ acceptedBy b r⟩)
  pollFlush t :=
    let (r, s) := pollFlush t.inner
    (r, ⟨s, t.log⟩)
  pollWrite_le := by
    intro t b n t' h
    simp only [Prod.mk.injEq] at h
    exact AsyncWrite.pollWrite_le (Prod.ext h.1 rfl)

/-- A tapped read logs what it answered with. -/
theorem tapped_pollRead {ρ : Type} [AsyncRead ρ] {t t' : Tapped ρ} {cap : Nat} {r : IoPoll Bytes}
    (h : pollRead t cap = (r, t')) : t'.log = t.log ++ deliveredBy r := by
  have h2 := congrArg (·.2.log) h
  have h1 := congrArg (·.1) h
  simp only [pollRead] at h1 h2
  rw [← h2, ← h1]

variable {ω : Type} {t t' : Tapped ω} {b : Bytes}

/-- A tapped write logs what it accepted. -/
theorem tapped_pollWrite [AsyncWrite ω] {r : IoPoll Nat} (h : pollWrite t b = (r, t')) :
    t'.log = t.log ++ acceptedBy b r := by
  have h2 := congrArg (·.2.log) h
  have h1 := congrArg (·.1) h
  simp only [pollWrite] at h1 h2
  rw [← h2, ← h1]

/-- A partial write moves bytes from what is left to write into the log. -/
theorem tapped_write_rest [AsyncWrite ω] {off n : Nat}
    (h : pollWrite t (b.drop off) = (.ready (.ok n), t')) :
    t'.log ++ b.drop (off + n) = t.log ++ b.drop off := by
  rw [tapped_pollWrite h, acceptedBy, append_assoc, ← drop_drop, take_append_drop]

/-- A write that stalls accepts nothing. -/
theorem tapped_write_pending [AsyncWrite ω] (h : pollWrite t b = (.pending, t')) :
    t'.log = t.log := by
  rw [tapped_pollWrite h, acceptedBy, append_nil]
  exact nofun

/-- A flush accepts nothing. -/
theorem tapped_pollFlush [AsyncWrite ω] {r : IoPoll Unit} (h : pollFlush t = (r, t')) :
    t'.log = t.log := by
  have h2 := congrArg (·.2.log) h
  simpa [pollFlush] using h2.symm

/-- How a reader is described: `rel d r` says that it has delivered `d` and is in state `r`. -/
structure ReaderSpec (ρ : Type) [AsyncRead ρ] where
  rel : Bytes → ρ → Prop
  eof : ρ → Prop
  read : ∀ {d x : Bytes} {r r' : ρ} {cap : Nat}, rel d r → 0 < cap →
    pollRead r cap = (.ready (.ok x), r') → rel (d ++ x) r'
  stall : ∀ {d : Bytes} {r r' : ρ} {cap : Nat}, rel d r → 0 < cap →
    pollRead r cap = (.pending, r') → rel d r'
  stop : ∀ {d : Bytes} {r r' : ρ} {cap : Nat}, rel d r → 0 < cap →
    pollRead r cap = (.ready (.ok []), r') → eof r'

/-- A tapped reader has delivered its log. -/
def ReaderSpec.tapped (ρ : Type) [AsyncRead ρ] : ReaderSpec (Tapped ρ) where
  rel d r := r.log = d
  eof _ := True
  read := fun hd _ h => by rw [tapped_pollRead h, hd]; rfl
  stall := fun hd _ h => by rw [tapped_pollRead h, hd]; simp [deliveredBy]
  stop := fun _ _ _ => trivial

/-! ### Runs of a reader -/

section

variable {ρ : Type} {poll : ρ → Nat → IoPoll Bytes × ρ}

/-- A run of reads with buffers of any sizes, none of which fails, delivers `d`. -/
inductive Reads (poll : ρ → Nat → IoPoll Bytes × ρ) (r : ρ) : Bytes → ρ → Prop where
  | start : Reads poll r [] r
  | read {d x : Bytes} {r' r'' : ρ} {cap : Nat} : Reads poll r d r' →
      poll r' cap = (.ready (.ok x), r'') → Reads poll r (d ++ x) r''
  | stall {d : Bytes} {r' r'' : ρ} {cap : Nat} : Reads poll r d r' →
      poll r' cap = (.pending, r'') → Reads poll r d r''

/-- Read with buffers of the given sizes. -/
def readWith (poll : ρ → Nat → IoPoll Bytes × ρ) : List Nat → Bytes → ρ → Option (Bytes × ρ)
  | [], d, r => some (d, r)
  | cap :: caps, d, r =>
    match poll r cap with
    | (.ready (.ok x), r') => readWith poll caps (d ++ x) r'
    | (.pending, r') => readWith poll caps d r'
    | (.ready (.error _), _) => none

theorem reads_of_readWith {r₀ : ρ} : ∀ (caps : List Nat) {d d' : Bytes} {r r' : ρ},
    Reads poll r₀ d r → readWith poll caps d r = some (d', r') → Reads poll r₀ d' r'
  | [], _, _, _, _, h, he => by
    simp only [readWith, Option.some.injEq, Prod.mk.injEq] at he
    rw [← he.1, ← he.2]; exact h
  | cap :: caps, _, _, _, _, h, he => by
    unfold readWith at he
    split at he
    case h_1 x r₁ hp => exact reads_of_readWith caps (h.read hp) he
    case h_2 r₁ hp => exact reads_of_readWith caps (h.stall hp) he
    case h_3 => simp at he

end

/-! ### A buffered reader driven by a script -/

theorem nil_fits : ([] : Bytes).length < 2 ^ 64 := by decide

/-- What the next read of the underlying stream brings: a non-empty slice, whose length is a
    machine word, `Pending`, or an error. -/
inductive Arrival where
  | slice (b : UInt8) (bs : Bytes) (fits : (b :: bs).length < 2 ^ 64 := by decide)
  | stall
  | fail (e : IoError)
  deriving DecidableEq

def Arrival.bytes : Arrival → Bytes
  | .slice b bs _ => b :: bs
  | .stall => []
  | .fail _ => []

/-- A buffered reader; behind the last arrival the stream is at its end. -/
structure Source where
  buffered : Bytes
  arrivals : List Arrival
  fits : buffered.length < 2 ^ 64 := by decide
  deriving DecidableEq

namespace Source

variable (s : Source)

/-- Every byte of the stream that is not consumed yet. -/
def content : Bytes := s.buffered ++ s.arrivals.flatMap Arrival.bytes

/-- The answer is the buffered data, empty at the end of the stream only. -/
def pollFillBuf : IoPoll Bytes × Source :=
  match s.buffered, s.arrivals with
  | b :: bs, _ => (.ready (.ok (b :: bs)), s)
  | [], [] => (.ready (.ok []), s)
  | [], .slice b bs fits :: as => (.ready (.ok (b :: bs)), ⟨b :: bs, as, fits⟩)
  | [], .stall :: as => (.pending, ⟨[], as, nil_fits⟩)
  | [], .fail e :: as => (.ready (.error e), ⟨[], as, nil_fits⟩)

def consume (n : Nat) : Source where
  buffered := s.buffered.drop n
  arrivals := s.arrivals
  fits := by have := s.fits; rw [List.length_drop]; omega

def pollRead (cap : Nat) : IoPoll Bytes × Source :=
  match s.pollFillBuf with
  | (.ready (.ok d), s') => (.ready (.ok (d.take cap)), s'.consume (min cap d.length))
  | (.ready (.error e), s') => (.ready (.error e), s')
  | (.pending, s') => (.pending, s')

theorem pollFillBuf_content : s.pollFillBuf.2.content = s.content := by
  unfold pollFillBuf
  split <;> simp_all [content, Arrival.bytes]

variable {s' : Source} {d : Bytes} {cap : Nat}

/-- A filled buffer is the start of the stream, and empty at its end only. -/
theorem pollFillBuf_ok {s : Source} (h : s.pollFillBuf = (.ready (.ok d), s')) :
    s'.buffered = d ∧ s'.content = s.content ∧ (d = [] → s'.content = []) := by
  have hc : s'.content = s.content := by rw [← pollFillBuf_content s, h]
  unfold pollFillBuf at h
  split at h
  case h_1 b bs hb =>
    simp only [Prod.mk.injEq, Poll.ready.injEq, Except.ok.injEq] at h
    exact ⟨by rw [← h.2, hb, h.1], hc, by simp [← h.1]⟩
  case h_2 hb ha =>
    simp only [Prod.mk.injEq, Poll.ready.injEq, Except.ok.injEq] at h
    exact ⟨by rw [← h.2, hb, h.1], hc, fun _ => by rw [hc]; simp [content, hb, ha]⟩
  case h_3 b bs fits as hb ha =>
    simp only [Prod.mk.injEq, Poll.ready.injEq, Except.ok.injEq] at h
    exact ⟨by rw [← h.2]; exact h.1, hc, by simp [← h.1]⟩
  all_goals simp at h

/-- Consuming buffered bytes takes them off the front of the stream. -/
theorem consume_content (n : Nat) : s.buffered.take n ++ (s.consume n).content = s.content := by
  simp only [content, consume, ← append_assoc, take_append_drop]

theorem pollRead_pending {s : Source} (h : s.pollRead cap = (.pending, s')) :
    s'.content = s.content := by
  unfold pollRead at h
  split at h
  case h_1 | h_2 => simp at h
  case h_3 t hf =>
    simp only [Prod.mk.injEq, true_and] at h
    rw [← h, ← pollFillBuf_content s, hf]

theorem pollRead_error_content {s : Source} {e : IoError}
    (h : s.pollRead cap = (.ready (.error e), s')) : s'.content = s.content := by
  unfold pollRead at h
  split at h
  case h_1 => simp at h
  case h_2 e' t hf => rw [← (Prod.mk.inj h).2, ← pollFillBuf_content s, hf]
  case h_3 => simp at h

/-- A read takes bytes off the front of the stream; with room for a byte it is empty at the end of
    the stream only. -/
theorem pollRead_ok {s : Source} (h : s.pollRead cap = (.ready (.ok d), s')) :
    d ++ s'.content = s.content ∧ d.length ≤ cap ∧ (0 < cap → d = [] → s'.content = []) := by
  unfold pollRead at h
  split at h
  case h_1 x t hf =>
    obtain ⟨hbuf, hcont, hend⟩ := pollFillBuf_ok hf
    simp only [Prod.mk.injEq, Poll.ready.injEq, Except.ok.injEq] at h
    obtain ⟨rfl, rfl⟩ := h
    have hsplit := consume_content t (min cap x.length)
    rw [hbuf, ← take_take, take_length] at hsplit
    refine ⟨hsplit.trans hcont, by rw [length_take]; omega, fun hcap hd => ?_⟩
    have hx : x = [] := by
      have := congrArg length hd
      simp only [length_take, length_nil] at this
      exact length_eq_zero_iff.mp (by omega)
    rw [hd] at hsplit
    rw [nil_append] at hsplit
    rw [hsplit, hend hx]
  case h_2 | h_3 => simp at h

end Source

/-! ### The script, byte by byte -/

/-- What a reader of the stream meets next. -/
inductive Event where
  | byte (b : UInt8)
  | stall
  | fail (e : IoError)
  deriving DecidableEq

/-- The bytes among the events. -/
def bytesOf (es : List Event) : Bytes :=
  es.filterMap fun
    | .byte b => some b
    | _ => none

@[simp] theorem bytesOf_nil : bytesOf [] = [] := rfl

@[simp] theorem bytesOf_append (a b : List Event) : bytesOf (a ++ b) = bytesOf a ++ bytesOf b :=
  filterMap_append

@[simp] theorem bytesOf_map_byte (bs : Bytes) : bytesOf (bs.map .byte) = bs := by
  simp [bytesOf]

@[simp] theorem bytesOf_stall : bytesOf [.stall] = [] := rfl

def Arrival.events : Arrival → List Event
  | .slice b bs _ => (b :: bs).map .byte
  | .stall => [.stall]
  | .fail e => [.fail e]

namespace Source

variable (s : Source)

/-- Everything that is still to come. -/
def events : List Event := s.buffered.map .byte ++ s.arrivals.flatMap Arrival.events

theorem bytesOf_events : bytesOf s.events = s.content := by
  have harr : ∀ as : List Arrival,
      bytesOf (as.flatMap Arrival.events) = as.flatMap Arrival.bytes := by
    intro as
    induction as with
    | nil => rfl
    | cons a as ih =>
      cases a with
      | slice b bs => simp only [flatMap_cons, bytesOf_append, ih, Arrival.events,
          bytesOf_map_byte, Arrival.bytes]
      | stall => exact ih
      | fail e => exact ih
  rw [events, content, bytesOf_append, bytesOf_map_byte, harr]

/-- A fill takes no byte off the script, but it passes a stall. -/
theorem pollFillBuf_events :
    (∀ {d s'}, s.pollFillBuf = (.ready (.ok d), s') → s'.events = s.events) ∧
    ∀ {s'}, s.pollFillBuf = (.pending, s') → .stall :: s'.events = s.events := by
  obtain ⟨buffered, arrivals, fits⟩ := s
  constructor
  · intro d s' h
    unfold pollFillBuf at h
    split at h
    all_goals simp only [Prod.mk.injEq, Poll.ready.injEq, Except.ok.injEq, reduceCtorEq,
      false_and] at h
    · rw [← h.2]
    · rw [← h.2]
    · next b bs fits as hb ha =>
      simp only at hb ha
      rw [← h.2]
      simp [events, hb, ha, Arrival.events]
  · intro s' h
    unfold pollFillBuf at h
    split at h
    all_goals simp only [Prod.mk.injEq, reduceCtorEq, false_and, true_and] at h
    next as hb ha =>
      simp only at hb ha
      rw [← h]
      simp [events, hb, ha, Arrival.events]

theorem consume_events (n : Nat) :
    (s.buffered.take n).map .byte ++ (s.consume n).events = s.events := by
  simp only [events, consume, ← append_assoc, ← map_append, take_append_drop]

/-- A read takes its bytes off the script, and a read that stalls takes a stall. -/
theorem pollRead_events {s s' : Source} {cap : Nat} :
    (∀ {d}, s.pollRead cap = (.ready (.ok d), s') → d.map .byte ++ s'.events = s.events) ∧
    (s.pollRead cap = (.pending, s') → .stall :: s'.events = s.events) := by
  constructor
  · intro d h
    unfold pollRead at h
    split at h
    case h_1 x t hf =>
      simp only [Prod.mk.injEq, Poll.ready.injEq, Except.ok.injEq] at h
      obtain ⟨rfl, rfl⟩ := h
      have hsplit := consume_events t (min cap x.length)
      rw [(pollFillBuf_ok hf).1, ← take_take, take_length] at hsplit
      rw [hsplit, s.pollFillBuf_events.1 hf]
    case h_2 | h_3 => simp at h
  · intro h
    unfold pollRead at h
    split at h
    case h_1 | h_2 => simp at h
    case h_3 t hf =>
      simp only [Prod.mk.injEq, true_and] at h
      rw [← h, s.pollFillBuf_events.2 hf]

end Source

/-! ### A writer driven by a script -/

/-- A writer; its script says for each write how many bytes are taken at most, or that it stalls.
    Behind the script every write is taken whole. -/
structure Sink where
  script : List (Option Nat)
  deriving DecidableEq

instance : AsyncWrite Sink where
  pollWrite w b :=
    match w.script with
    | [] => (.ready (.ok b.length), w)
    | none :: script => (.pending, ⟨script⟩)
    | some n :: script => (.ready (.ok (min n b.length)), ⟨script⟩)
  pollFlush w := (.ready (.ok ()), w)
  pollWrite_le := by
    intro w b n w' h
    split at h
    all_goals simp only [Prod.mk.injEq, Poll.ready.injEq, Except.ok.injEq, reduceCtorEq,
      false_and] at h
    all_goals omega

end Vey.Schemes
