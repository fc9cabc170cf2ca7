import Vey.Http.BodyToChunked

/-! What `H1BodyToChunkedTransfer` reports as written.

        reader --payload read--> [ cached ] --> writer
               body_size()                      written_body_size() <= payload accepted

    What is chunked already is copied as it is, so its payload is counted where it is read. All that
    is cached could be payload: taking it off gives a lower bound of what the writer has. A read that
    fails breaks this, as it may have counted payload that never gets into the buffer. -/

namespace Vey.Http
open Schemes IoExt List Frame HttpBodyReader H1BodyToChunkedTransfer StreamToChunkedTransfer BodyKind

/-! ### The counters -/

namespace StreamCopy

variable {ρ ω : Type}

def cachedDataSize (s : StreamCopy ρ ω) : Nat := s.buf.rOff - s.buf.wOff

def copiedSize (s : StreamCopy ρ ω) : Nat := s.buf.totalWrite

end StreamCopy

def StreamToChunkedTransfer.resetActive {ω : Type} (e : StreamToChunkedTransfer ω) :
    StreamToChunkedTransfer ω := { e with active := false }

namespace H1BodyToChunkedTransfer

variable {ω : Type} (t : H1BodyToChunkedTransfer ω)

def finished : Bool :=
  match t.state with
  | .flushEnd _ _ | .ended _ _ => true
  | _ => false

def resetActive : H1BodyToChunkedTransfer ω :=
  { t with
    active := false
    state := match t.state with
      | .copy c => .copy c.resetActive
      | .encode e => .encode e.resetActive
      | s => s }

def addCopied (n : Nat) (t : H1BodyToChunkedTransfer ω) : H1BodyToChunkedTransfer ω :=
  { t with base := t.base + n }

def writtenBodySize : Nat :=
  match t.state with
  | .sendHead _ => t.base
  | .copy c =>
    if t.bodyType = .chunked then t.base + (c.reader.bodySize - StreamCopy.cachedDataSize c)
    else t.base + StreamCopy.copiedSize c
  | .encode e => t.base + e.bodySize
  | .sendNoTrailerEnd _ | .flushEnd _ _ | .ended _ _ => t.base

variable [AtoiRadix16] [AsyncWrite ω]

/-- The steps of one poll, all of which start in states with `P`. -/
def Steps (P : H1BodyToChunkedTransfer ω → Prop) :
    H1BodyToChunkedTransfer ω → H1BodyToChunkedTransfer ω → Prop :=
  Relation.ReflTransGen fun t u => P t ∧ t.poll = .next u

/-- The states of a transfer between the calls of its owner, who has reported `k` bytes in all and
    polls until an answer is there. All steps start in states with `P`. -/
inductive Reaches (P : H1BodyToChunkedTransfer ω → Prop) (s : H1BodyToChunkedTransfer ω) :
    Nat → Option (Except StreamCopyError Unit) → H1BodyToChunkedTransfer ω → Prop where
  | new : Reaches P s 0 none s
  | addCopied {k a t} (n : Nat) : Reaches P s k a t → Reaches P s (k + n) a (t.addCopied n)
  | resetActive {k a t} : Reaches P s k a t → Reaches P s k a t.resetActive
  | pending {k t v u} : Reaches P s k none t → Steps P ((future ω).enter t) v → P v →
      v.poll = .ret .pending u → Reaches P s k none u
  | ready {k t v u a} : Reaches P s k none t → Steps P ((future ω).enter t) v → P v →
      v.poll = .ret (.ready a) u → Reaches P s k (some a) u

/-- The next step, if it fails, has counted no payload. A write that fails never has; a `poll_read`
    that fails has, where it took payload before the failure. -/
def FailsEmpty (t : H1BodyToChunkedTransfer ω) : Prop :=
  ∀ e u, t.poll = .ret (.ready (.error e)) u → u.bodySize = t.bodySize

theorem failsEmpty_of_poll {t : H1BodyToChunkedTransfer ω}
    {c : Ctrl (H1BodyToChunkedTransfer ω) (CopyPoll Unit)} (h : t.poll = c)
    (hc : ∀ e u, c ≠ .ret (.ready (.error e)) u) : t.FailsEmpty :=
  fun e u he => absurd (h.symm.trans he) (hc e u)

/-- The steps of a poll up to the one that answers. -/
theorem steps_of_iter {t u : H1BodyToChunkedTransfer ω} {n : Nat}
    {r : CopyPoll Unit} (h : iter poll n t = some (r, u)) :
    ∃ v, Steps FailsEmpty t v ∧ v.poll = .ret r u := by
  refine iter_inv (Steps FailsEmpty t) (fun v w hv hw => ?_) .refl h
  exact hv.tail ⟨failsEmpty_of_poll hw fun _ _ => nofun, hw⟩

end H1BodyToChunkedTransfer

section

variable [AtoiRadix16]

/-- The number of payload bytes in what was written of a chunked body. -/
def payloadSize (log : Bytes) : Nat := (Frame.feed sizeOf Frame.start log).body.length

theorem payloadSize_append (a b : Bytes) :
    payloadSize a ≤ payloadSize (a ++ b) ∧ payloadSize (a ++ b) ≤ payloadSize a + b.length := by
  rw [payloadSize, payloadSize, feed_append]
  exact feed_body_length b _

theorem payloadSize_of_feed {log body : Bytes} {st : FrameSt}
    (h : feed sizeOf start log = ⟨st, body⟩) : payloadSize log = body.length := by
  rw [payloadSize, h]

/-- What a transfer owes its owner, who has reported `k` bytes. -/
structure Accounts {ω : Type} (kind : BodyKind) (input : Bytes) (k : Nat)
    (t : H1BodyToChunkedTransfer (Tapped ω)) : Prop where
  reported : k ≤ t.writtenBodySize
  accepted : t.writtenBodySize ≤ k + payloadSize t.state.writer.log
  read : t.writtenBodySize ≤ t.bodySize
  finished : t.finished = true → ∃ wire body, input = wire ++ t.state.reader.content ∧
    kind.Delimits wire t.state.reader.content body ∧
    t.writtenBodySize = k + body.length ∧ t.bodySize = k + body.length

end

/-! ### The payload a reader has counted -/

section

variable [AtoiRadix16]

/-- A reader whose counter is the payload of what it delivers behind `head`. -/
structure Meters (bodyType : HttpBodyType) (head : Bytes) (R : ReaderSpec HttpBodyReader) : Prop where
  count : ∀ {d r}, R.rel d r → payloadSize (head ++ d) = r.bodySize
  plain : ∀ {d r}, bodyType ≠ .chunked → R.rel d r → r.bodySize = d.length
  lost : ∀ {d r r' cap e}, bodyType ≠ .chunked → R.rel d r →
    r.pollRead cap = (.ready (.error e), r') → r'.bodySize = r.bodySize

namespace HttpBodyReader

theorem meters_chunked {r₀ : HttpBodyReader} {f : Frame} {head : Bytes}
    (hhead : feed sizeOf start head = f) : Meters .chunked head (chunkedSpec r₀ f) where
  count := by
    rintro _ r ⟨es, rfl, hes⟩
    rw [payloadSize, feed_append, hhead, ← hes.tracks.size]
    rfl
  plain := fun hne => absurd rfl hne
  lost := fun hne => absurd rfl hne

theorem meters_fixed {len : UInt64} (h0 : len ≠ 0) (input : Bytes) :
    Meters (.contentLength len) (hexFmt len.toNat ++ [cr, lf]) (fixedSpec len.toNat input) where
  count := by
    intro d r hrel
    have hrem : r.Remaining len.toNat input d := hrel
    have hpos : len.toNat ≠ 0 := fun h => h0 (UInt64.toNat_inj.mp h)
    have hle : d.length ≤ len.toNat := by
      rcases hrem.left with ⟨-, -, hlen⟩ | ⟨-, hlen⟩ <;> omega
    have hhead := feed_chunkHeader len.toNat_lt 0 []
    simp only [chunkHeader, hpos, if_true, if_false] at hhead
    have hfeed : feed sizeOf start ((hexFmt len.toNat ++ [cr, lf]) ++ d) =
        ⟨dataSt (len.toNat - d.length), d⟩ := by
      rw [feed_append, show start = ⟨.sizeLine [], []⟩ from rfl, hhead,
        feed_data hle (by omega), nil_append]
    exact (payloadSize_of_feed hfeed).trans hrem.size.symm
  plain := by
    intro d r _ hrel
    have hrem : r.Remaining len.toNat input d := hrel
    exact hrem.size
  lost := by
    intro d r r' cap e _ hrel hp
    have hrem : r.Remaining len.toNat input d := hrel
    have hafter := hrem.pollRead cap
    rw [hp] at hafter
    exact (Remaining.size hafter).trans hrem.size.symm

end HttpBodyReader

namespace Meters

variable {ω : Type} {bodyType : HttpBodyType} {head d : Bytes} {R : ReaderSpec HttpBodyReader}
  (hR : Meters bodyType head R)

include hR

/-- The same reader, which has counted `n` bytes already. -/
def counted (n : Nat) : ReaderSpec HttpBodyReader where
  rel d r := R.rel d r ∧ n ≤ r.bodySize
  eof := R.eof
  read := by
    rintro d x r r' cap ⟨hrel, hn⟩ hcap hp
    have hrel' := R.read hrel hcap hp
    refine ⟨hrel', hn.trans ?_⟩
    rw [← hR.count hrel, ← hR.count hrel', ← append_assoc]
    exact (payloadSize_append _ _).1
  stall := by
    rintro d r r' cap ⟨hrel, hn⟩ hcap hp
    have hrel' := R.stall hrel hcap hp
    exact ⟨hrel', by rwa [← hR.count hrel', hR.count hrel]⟩
  stop h := R.stop h.1

/-- The counters of a copy behind `head`. The reader that is left has counted no more than one that
    `R` speaks of. -/
theorem counts {c : StreamCopy HttpBodyReader (Tapped ω)} {r : HttpBodyReader} (hrel : R.rel d r)
    (hcons : Conserves head.length head d c.writer.log c.buf) (hle : c.reader.bodySize ≤ r.bodySize)
    (heq : bodyType ≠ .chunked → c.reader.bodySize = r.bodySize) :
    c.reader.bodySize ≤ payloadSize c.writer.log + StreamCopy.cachedDataSize c ∧
    (bodyType ≠ .chunked → StreamCopy.copiedSize c ≤ payloadSize c.writer.log ∧
      StreamCopy.copiedSize c ≤ c.reader.bodySize) := by
  have hcached : c.buf.cached.length = StreamCopy.cachedDataSize c := win_length hcons.r_le
  -- every cached byte may be payload
  have hread : r.bodySize ≤ payloadSize c.writer.log + StreamCopy.cachedDataSize c := by
    rw [← hR.count hrel, ← hcons.flow, ← hcached]
    exact (payloadSize_append _ _).2
  refine ⟨hle.trans hread, fun hne => ?_⟩
  have hplain := hR.plain hne hrel
  have hflow := congrArg length hcons.flow
  have htotal := hcons.total
  have hkept := heq hne
  simp only [length_append] at hflow
  simp only [StreamCopy.copiedSize]
  omega

end Meters

end

/-! ### One step -/

section

variable [AtoiRadix16] {ω : Type} [AsyncWrite ω] {kind : BodyKind} {input : Bytes}

namespace StreamToChunkedTransfer

variable {e : StreamToChunkedTransfer (Tapped ω)} {sent : Bytes}

omit [AsyncWrite ω] in
theorem Encodes.payloadSize_eq (h : e.Encodes sent) (hp : e.pc = .payload) :
    payloadSize e.writer.log = e.copied := by
  have hframe := h.frame
  rw [(h.payload hp).2, append_nil] at hframe
  rw [payloadSize_of_feed hframe, h.copied]

/-- The encoder counts a payload byte when the writer has it. -/
theorem pollEncode_copied (h : e.Inv input) (hle : e.copied ≤ payloadSize e.writer.log) :
    e.pollEncode.state.copied ≤ payloadSize e.pollEncode.state.writer.log := by
  have hgrow : ∀ {w : Tapped ω} {b : Bytes} {r : IoPoll Nat}, pollWrite e.writer b = (r, w) →
      e.copied ≤ payloadSize w.log := by
    intro w b r hw
    rw [tapped_pollWrite hw]
    exact hle.trans (payloadSize_append _ _).1
  have hflush : ∀ {w : Tapped ω} {r : IoPoll Unit}, pollFlush e.writer = (r, w) →
      e.copied ≤ payloadSize w.log := by
    intro w r hw
    rw [tapped_pollFlush hw]
    exact hle
  have hstep := pollEncode_ensures h
  unfold pollEncode at hstep ⊢
  cases hpc : e.pc with
  | top =>
    dsimp only
    unfold nextChunk
    split
    · split <;> exact hle
    · exact hle
  | header =>
    dsimp only
    unfold sendHeader
    split
    · split <;> next hw => exact hgrow hw
    · split
      · split <;> next hw => exact hflush hw
      · exact hle
  | payload =>
    rw [hpc] at hstep
    dsimp only at hstep ⊢
    unfold sendPayload at hstep ⊢
    split
    case isTrue hpos =>
      rw [if_pos hpos] at hstep
      split
      case h_1 | h_2 => exact hle
      case h_3 data reader hf =>
        rw [hf] at hstep
        dsimp only at hstep
        split
        case h_1 w hw | h_2 err w hw | h_3 w hw => exact hgrow hw
        case h_4 nw w hne hw =>
          obtain ⟨n, rfl⟩ := Nat.exists_eq_succ_of_ne_zero hne
          rw [hw] at hstep
          obtain ⟨sent, -, henc⟩ := hstep
          exact Nat.le_of_eq (henc.payloadSize_eq hpc).symm
    case isFalse =>
      dsimp only
      split <;> exact hle

end StreamToChunkedTransfer

namespace H1BodyToChunkedTransfer

variable {t u : H1BodyToChunkedTransfer (Tapped ω)}

/-- The counters of each state. -/
def Metered (t : H1BodyToChunkedTransfer (Tapped ω)) : Prop :=
  match t.state with
  | .sendHead s => s.writer.log ++ s.head.drop s.offset = s.head ∧
      ∃ R, Meters t.bodyType s.head R ∧ R.rel [] s.bodyReader
  | .copy c => ∃ R head, Meters t.bodyType head R ∧ c.Inv R head.length head
  | .sendNoTrailerEnd e => t.base ≤ payloadSize e.writer.log
  | .encode e => e.copied ≤ payloadSize e.writer.log
  | .flushEnd _ _ | .ended _ _ => True

/-- A transfer in flight: it carries the body, and it counts what it carries. -/
def Flies (kind : BodyKind) (input : Bytes) (t : H1BodyToChunkedTransfer (Tapped ω)) : Prop :=
  t.Inv kind input ∧ t.Metered

variable {c : StreamCopy HttpBodyReader (Tapped ω)} {s : SendHead (Tapped ω)}
  {e : SendEnd (Tapped ω)} {r : CopyPoll Unit} {k maxLen : Nat}

section

omit [AsyncWrite ω]

theorem accounts_copy (hs : t.state = .copy c) (hbase : t.base = 0)
    (hc : c.reader.bodySize ≤ payloadSize c.writer.log + StreamCopy.cachedDataSize c ∧
      (t.bodyType ≠ .chunked → StreamCopy.copiedSize c ≤ payloadSize c.writer.log ∧
        StreamCopy.copiedSize c ≤ c.reader.bodySize)) : Accounts kind input 0 t := by
  obtain ⟨hread, hplain⟩ := hc
  have hwritten : t.writtenBodySize ≤ payloadSize c.writer.log ∧
      t.writtenBodySize ≤ c.reader.bodySize := by
    simp only [writtenBodySize, hs]
    split
    · omega
    · next hne =>
      obtain ⟨hle, hle'⟩ := hplain hne
      omega
  refine ⟨Nat.zero_le _, ?_, ?_, ?_⟩
  · simp only [hs, ChunkedTransferState.writer]
    omega
  · simp only [bodySize, hs]
    omega
  · simp [finished, hs]

theorem accounts_sendHead (hs : t.state = .sendHead s) (hbase : t.base = 0) :
    Accounts kind input 0 t := by
  refine ⟨Nat.zero_le _, ?_, ?_, by simp [finished, hs]⟩
  · simp [writtenBodySize, hs, hbase]
  · simp [writtenBodySize, bodySize, hs]

theorem accounts_sendNoTrailerEnd (hs : t.state = .sendNoTrailerEnd e) (hm : t.Metered) :
    Accounts kind input 0 t := by
  simp only [Metered, hs] at hm
  refine ⟨Nat.zero_le _, ?_, ?_, by simp [finished, hs]⟩
  · simpa [writtenBodySize, hs, ChunkedTransferState.writer] using hm
  · simp [writtenBodySize, bodySize, hs]

theorem accounts_encode {e : StreamToChunkedTransfer (Tapped ω)} (hs : t.state = .encode e)
    (hbase : t.base = 0) (hm : t.Metered) : Accounts kind input 0 t := by
  simp only [Metered, hs] at hm
  refine ⟨Nat.zero_le _, ?_, ?_, by simp [finished, hs]⟩
  · simpa [writtenBodySize, StreamToChunkedTransfer.bodySize, hs, hbase,
      ChunkedTransferState.writer] using hm
  · simp [writtenBodySize, bodySize, hs]

omit [AtoiRadix16] in
theorem sizes_of_finished (h : t.finished = true) :
    t.writtenBodySize = t.base ∧ t.bodySize = t.base := by
  unfold finished at h
  split at h
  case h_1 hs | h_2 hs => simp [writtenBodySize, bodySize, hs]
  case h_3 => cases h

theorem accounts_delivered (hfin : t.finished = true)
    (h : Delivered kind input t.state.writer.log t.state.reader.content t.base) :
    Accounts kind input 0 t := by
  obtain ⟨wire, body, hin, hdel, hframe, hsize⟩ := h
  obtain ⟨hwritten, hread⟩ := sizes_of_finished hfin
  have hpayload := payloadSize_of_feed hframe
  exact ⟨Nat.zero_le _, by omega, by omega, fun _ => ⟨wire, body, hin, hdel, by omega, by omega⟩⟩

/-- A transfer in flight accounts for what it has done. -/
theorem Flies.accounts (h : t.Flies kind input) : Accounts kind input 0 t := by
  obtain ⟨hinv, hm⟩ := h
  unfold Inv at hinv
  cases hs : t.state with
  | sendHead s =>
    rw [hs] at hinv
    exact accounts_sendHead hs hinv.1
  | copy c =>
    rw [hs] at hinv
    simp only [Metered, hs] at hm
    obtain ⟨R, head, hR, d, hrel, hcons, -⟩ := hm
    exact accounts_copy hs hinv.1 (hR.counts hrel hcons le_rfl fun _ => rfl)
  | sendNoTrailerEnd e => exact accounts_sendNoTrailerEnd hs hm
  | encode e =>
    rw [hs] at hinv
    exact accounts_encode hs hinv.1 hm
  | flushEnd | ended =>
    rw [hs] at hinv
    exact accounts_delivered (by simp [finished, hs]) (by rw [hs]; exact hinv)

end

/-- What one step owes to the counters. -/
def Counts (kind : BodyKind) (input : Bytes) :
    Ctrl (H1BodyToChunkedTransfer (Tapped ω)) (CopyPoll Unit) → Prop
  | .next u | .ret .pending u => u.Metered
  | .ret (.ready (.ok _)) u => u.finished = true
  | .ret (.ready (.error _)) u => Accounts kind input 0 u

theorem pollSendHead_counts (hs : t.state = .sendHead s) (hbase : t.base = 0) (h : t.Metered) :
    Counts kind input (t.pollSendHead s) := by
  simp only [Metered, hs] at h
  obtain ⟨hlog, R, hR, hrel⟩ := h
  unfold pollSendHead
  split
  case isTrue =>
    split
    case h_1 w hw => exact ⟨by rw [tapped_write_pending hw]; exact hlog, R, hR, hrel⟩
    case h_2 | h_3 => exact accounts_sendHead rfl hbase
    case h_4 nw w _ hw => exact ⟨by rw [tapped_write_rest hw]; exact hlog, R, hR, hrel⟩
  case isFalse hge =>
    have hall : s.writer.log = s.head := by
      rw [drop_eq_nil_of_le (by omega), append_nil] at hlog; exact hlog
    refine ⟨R, s.head, hR, [], hrel, ?_, nofun⟩
    simpa [hall, StreamCopy.new] using (Conserves.new _).behind s.head

theorem pollCopy_counts (hs : t.state = .copy c) (hbase : t.base = 0) (h : t.Metered)
    (hempty : t.FailsEmpty) : Counts kind input (t.pollCopy c) := by
  simp only [Metered, hs] at h
  obtain ⟨R, head, hR, hc⟩ := h
  have hstep := StreamCopy.pollCopy_settles hc
  have hfails : ∀ e u, t.pollCopy c = .ret (.ready (.error e)) u → u.bodySize = t.bodySize :=
    fun e u he => hempty e u (by rw [poll, hs]; exact he)
  unfold pollCopy at hfails ⊢
  split
  case h_1 c' he | h_2 c' he => rw [he] at hstep; exact ⟨R, head, hR, hstep⟩
  case h_3 err c' he =>
    -- the reader that is left may be a failed one: it has counted no more than the one before
    obtain ⟨d, hrel, hcons, hdone⟩ := hc
    have hstep := StreamCopy.pollCopy_settles (R := hR.counted c.reader.bodySize)
      ⟨d, ⟨hrel, le_rfl⟩, hcons, hdone⟩
    rw [he] at hstep hfails
    obtain ⟨d', r, ⟨hrel', hle⟩, hcons', hreader⟩ := hstep
    have hsame := hfails err _ rfl
    simp only [bodySize, hs, Nat.add_left_cancel_iff] at hsame
    refine accounts_copy rfl hbase (hR.counts hrel' hcons' (hsame.le.trans hle) fun hne => ?_)
    rcases hreader with hsame | ⟨cap, e, -, hp⟩
    · rw [hsame]
    · exact hR.lost hne hrel' hp
  case h_4 n c' he =>
    rw [he] at hstep
    obtain ⟨⟨d, hrel, hcons, -⟩, hcached, -, -⟩ := hstep
    have hlog : c'.writer.log = head ++ d := by simpa [hcached] using hcons.flow
    dsimp only
    split
    case h_1 =>
      show t.base + c'.reader.bodySize ≤ payloadSize c'.writer.log
      rw [hbase, hlog, hR.count hrel, Nat.zero_add]
    case h_2 => rfl

theorem pollSendNoTrailerEnd_counts (hs : t.state = .sendNoTrailerEnd e) (h : t.Metered) :
    Counts kind input (t.pollSendNoTrailerEnd e) := by
  simp only [Metered, hs] at h
  have hgrow : ∀ {w : Tapped ω} {b : Bytes} {r : IoPoll Nat}, pollWrite e.writer b = (r, w) →
      t.base ≤ payloadSize w.log := by
    intro w b r hw
    rw [tapped_pollWrite hw]
    exact h.trans (payloadSize_append _ _).1
  unfold pollSendNoTrailerEnd
  split
  · split
    case h_1 hw => exact hgrow hw
    case h_2 hw | h_3 hw => exact accounts_sendNoTrailerEnd rfl (hgrow hw)
    case h_4 hw => exact hgrow hw
  · rfl

theorem pollEncode_counts {e : StreamToChunkedTransfer (Tapped ω)} (hs : t.state = .encode e)
    (hbase : t.base = 0) (he : e.Inv input) (h : t.Metered) :
    Counts kind input (t.pollEncode e) := by
  simp only [Metered, hs] at h
  have hstep := pollEncode_copied he h
  unfold pollEncode
  split
  case h_1 e' hp | h_2 e' hp => rw [hp] at hstep; exact hstep
  case h_3 err e' hp => rw [hp] at hstep; exact accounts_encode rfl hbase hstep
  case h_4 => rfl

section

variable (h : t.Flies kind input)

include h

section

variable (hempty : t.FailsEmpty)

include hempty

/-- One step of `poll` keeps the counters. -/
theorem Flies.poll_counts : Counts kind input t.poll := by
  obtain ⟨hinv, hm⟩ := h
  unfold Inv at hinv
  unfold poll
  split
  case h_1 s hs => rw [hs] at hinv; exact pollSendHead_counts hs hinv.1 hm
  case h_2 c hs => rw [hs] at hinv; exact pollCopy_counts hs hinv.1 hm hempty
  case h_3 e hs => exact pollSendNoTrailerEnd_counts hs hm
  case h_4 e hs => rw [hs] at hinv; exact pollEncode_counts hs hinv.1 hinv.2.2 hm
  case h_5 r w hs =>
    rw [hs] at hinv
    split
    case h_1 => exact trivial
    case h_2 err w' hw =>
      refine accounts_delivered rfl ?_
      show Delivered kind input w'.log r.content t.base
      rw [tapped_pollFlush hw]; exact hinv
    case h_3 => rfl
  case h_6 hs => simp [Counts, finished, hs]

/-- An answer of a poll, whatever it is, leaves the accounts in order. -/
theorem Flies.poll_ret (hp : t.poll = .ret r u) :
    Accounts kind input 0 u ∧ (r = .pending → u.Flies kind input) := by
  have hinv := poll_ensures h.1
  have hm := h.poll_counts hempty
  rw [hp] at hinv hm
  match r with
  | .pending => exact ⟨Flies.accounts ⟨hinv, hm⟩, fun _ => ⟨hinv, hm⟩⟩
  | .ready (.ok ()) =>
    have hdone : Delivered kind input u.state.writer.log u.state.reader.content u.bodySize := hinv
    rw [(sizes_of_finished hm).2] at hdone
    exact ⟨accounts_delivered hm hdone, nofun⟩
  | .ready (.error e) => exact ⟨hm, nofun⟩

/-! ### Whole runs -/

theorem poll_next_flies (hp : t.poll = .next u) : u.Flies kind input := by
  have hinv := poll_ensures h.1
  have hm := h.poll_counts hempty
  rw [hp] at hinv hm
  exact ⟨hinv, hm⟩

end

theorem Flies.enter : ((future (Tapped ω)).enter t).Flies kind input := by
  obtain ⟨hinv, hm⟩ := h
  refine ⟨hinv.enter, ?_⟩
  obtain ⟨bodyType, config, state, total, base, active⟩ := t
  cases state <;> exact hm

omit [AsyncWrite ω] in
theorem Flies.resetActive : t.resetActive.Flies kind input := by
  obtain ⟨bodyType, config, state, total, base, active⟩ := t
  obtain ⟨hinv, hm⟩ := h
  cases state with
  | copy c =>
    have hkept : ∀ {R : ReaderSpec HttpBodyReader} {head : Bytes}, c.Inv R head.length head →
        c.resetActive.Inv R head.length head := fun hc =>
      Flow.mapBuf hc (fun _ h => { h with }) rfl
    obtain ⟨hbase, R, head, hR, hc⟩ := hinv
    obtain ⟨R', head', hR', hc'⟩ := hm
    exact ⟨⟨hbase, R, head, hR, hkept hc⟩, R', head', hR', hkept hc'⟩
  | encode e =>
    obtain ⟨hbase, hkind, sent, hin, henc⟩ := hinv
    exact ⟨⟨hbase, hkind, sent, hin, henc.noTrailer, henc.total, henc.copied, henc.frame, henc.room,
      henc.fin, henc.idle, henc.opened, henc.payload⟩, hm⟩
  | sendHead | sendNoTrailerEnd | flushEnd | ended => exact ⟨hinv, hm⟩

end

omit [AsyncWrite ω] in
theorem accounts_resetActive (h : Accounts kind input k t) :
    Accounts kind input k t.resetActive := by
  obtain ⟨bodyType, config, state, total, base, active⟩ := t
  cases state <;> exact ⟨h.reported, h.accepted, h.read, h.finished⟩

omit [AsyncWrite ω] in
/-- What the owner reports moves both counters. -/
theorem accounts_addCopied (h : Accounts kind input k t) (n : Nat) :
    Accounts kind input (k + n) (t.addCopied n) := by
  have hwritten : (t.addCopied n).writtenBodySize = t.writtenBodySize + n := by
    obtain ⟨bodyType, config, state, total, base, active⟩ := t
    cases state with
    | copy c =>
      by_cases hc : bodyType = .chunked
      · simp only [writtenBodySize, H1BodyToChunkedTransfer.addCopied, hc, if_true]
        omega
      · simp only [writtenBodySize, H1BodyToChunkedTransfer.addCopied, hc, if_false]
        omega
    | encode e =>
      simp only [writtenBodySize, H1BodyToChunkedTransfer.addCopied]
      omega
    | sendHead | sendNoTrailerEnd | flushEnd | ended => rfl
  have hread : (t.addCopied n).bodySize = t.bodySize + n := by
    simp only [bodySize, H1BodyToChunkedTransfer.addCopied]
    omega
  have hreported := h.reported
  have haccepted := h.accepted
  have hle := h.read
  refine ⟨by omega, ?_, by omega, fun hfin => ?_⟩
  · rw [hwritten]
    show t.writtenBodySize + n ≤ k + n + payloadSize t.state.writer.log
    omega
  · obtain ⟨wire, body, hin, hdel, hw, hb⟩ := h.finished hfin
    exact ⟨wire, body, hin, hdel, by omega, by omega⟩

/-- A poll does not look at what the owner has reported. -/
theorem poll_addCopied (n : Nat) (t : H1BodyToChunkedTransfer (Tapped ω)) :
    (t.addCopied n).poll = t.poll.map (addCopied n) := by
  obtain ⟨bodyType, config, state, total, base, active⟩ := t
  cases state with
  | sendHead s =>
    simp only [poll, pollSendHead, addCopied]
    split
    · split <;> rfl
    · rfl
  | copy c =>
    simp only [poll, pollCopy, addCopied]
    split
    · rfl
    · rfl
    · rfl
    · rw [Nat.add_right_comm]
      split <;> rfl
  | sendNoTrailerEnd e =>
    simp only [poll, pollSendNoTrailerEnd, addCopied]
    split
    · split <;> rfl
    · rfl
  | encode e =>
    simp only [poll, pollEncode, addCopied]
    split
    · rfl
    · rfl
    · rfl
    · rw [Nat.add_right_comm]
      rfl
  | flushEnd r w =>
    simp only [poll, addCopied]
    split <;> rfl
  | ended r w => rfl

/-- A state of a transfer whose owner has reported `k` bytes is one of the transfer without them. -/
theorem FailsEmpty.of_addCopied (h : (t.addCopied k).FailsEmpty) : t.FailsEmpty := by
  intro e u hp
  have hsame := h e (u.addCopied k) (by rw [poll_addCopied, hp]; rfl)
  simp only [bodySize, addCopied] at hsame ⊢
  omega

theorem Flies.steps (h : t.Flies kind input) (hsteps : Steps FailsEmpty (t.addCopied k) u) :
    ∃ v : H1BodyToChunkedTransfer (Tapped ω), u = v.addCopied k ∧ v.Flies kind input := by
  induction hsteps with
  | refl => exact ⟨t, rfl, h⟩
  | tail _ hstep ih =>
    obtain ⟨v, rfl, hv⟩ := ih
    obtain ⟨hempty, hp⟩ := hstep
    rw [poll_addCopied] at hp
    cases hb : v.poll with
    | next x =>
      rw [hb] at hp
      exact ⟨x, (Ctrl.next.inj hp).symm, poll_next_flies hv hempty.of_addCopied hb⟩
    | ret r x => rw [hb] at hp; cases hp

/-- A whole poll of a transfer whose owner has reported `k` bytes, by the transfer without them. -/
theorem Flies.polls {v : H1BodyToChunkedTransfer (Tapped ω)} (h : t.Flies kind input)
    (hsteps : Steps FailsEmpty ((future (Tapped ω)).enter (t.addCopied k)) v) (hempty : v.FailsEmpty)
    (hp : v.poll = .ret r u) :
    ∃ w, u = w.addCopied k ∧ Accounts kind input 0 w ∧ (r = .pending → w.Flies kind input) := by
  obtain ⟨w, rfl, hw⟩ := Flies.steps h.enter hsteps
  rw [poll_addCopied] at hp
  cases hb : w.poll with
  | next x => rw [hb] at hp; cases hp
  | ret r' x =>
    rw [hb] at hp
    obtain ⟨rfl, rfl⟩ := Ctrl.ret.inj hp
    exact ⟨x, rfl, hw.poll_ret hempty.of_addCopied hb⟩

/-- Every state that the owner can see is one of a transfer that was told nothing, moved by what was
    reported. -/
theorem Reaches.accounts {s : H1BodyToChunkedTransfer (Tapped ω)}
    {a : Option (Except StreamCopyError Unit)} (hs : s.Flies kind input)
    (h : s.Reaches FailsEmpty k a t) :
    ∃ v, t = v.addCopied k ∧ Accounts kind input 0 v ∧ (a = none → v.Flies kind input) := by
  induction h with
  | new => exact ⟨s, rfl, hs.accounts, fun _ => hs⟩
  | addCopied n _ ih =>
    obtain ⟨v, rfl, hacc, hflies⟩ := ih
    exact ⟨v, by simp only [H1BodyToChunkedTransfer.addCopied, Nat.add_assoc], hacc, hflies⟩
  | resetActive _ ih =>
    obtain ⟨v, rfl, hacc, hflies⟩ := ih
    exact ⟨v.resetActive, rfl, accounts_resetActive hacc, fun hnone => (hflies hnone).resetActive⟩
  | pending _ hsteps hempty hp ih =>
    obtain ⟨v, rfl, -, hflies⟩ := ih
    obtain ⟨v', rfl, hacc, hflies'⟩ := (hflies rfl).polls hsteps hempty hp
    exact ⟨v', rfl, hacc, fun _ => hflies' rfl⟩
  | ready _ hsteps hempty hp ih =>
    obtain ⟨v, rfl, -, hflies⟩ := ih
    obtain ⟨v', rfl, hacc, -⟩ := (hflies rfl).polls hsteps hempty hp
    exact ⟨v', rfl, hacc, nofun⟩

/-! ### The start -/

omit [AsyncWrite ω] in
theorem metered_newChunked (src : Source) (w : ω) (config : StreamCopyConfig) :
    (newChunked src (tap w) maxLen config).Metered :=
  ⟨chunkedSpec (.newChunked src maxLen) start, [], meters_chunked (feed_nil _), [],
    ⟨[], rfl, .refl (tracks_newChunked src maxLen)⟩, Conserves.new config, nofun⟩

omit [AsyncWrite ω] in
theorem metered_transfer (src : Source) (w : ω) (config : StreamCopyConfig) :
    (kind.transfer src (tap w) maxLen config).Metered := by
  match kind with
  | .ofType (.contentLength len) =>
    unfold transfer new newFixedLength
    by_cases h0 : len = 0
    · simp only [h0, if_true]
      exact Nat.zero_le _
    · simp only [h0, if_false]
      exact ⟨rfl, fixedSpec len.toNat src.content,
        meters_fixed h0 src.content, remaining_newFixedLength src h0⟩
  | .ofType .readUntilEnd => exact Nat.zero_le _
  | .ofType .chunked => exact metered_newChunked src w config
  | .chunkedAfterPreview left =>
    unfold transfer newChunkedAfterPreview
    by_cases h0 : left = 0
    · simp only [h0, if_true]
      exact metered_newChunked src w config
    · have hpos : left.toNat ≠ 0 := fun h => h0 (UInt64.toNat_inj.mp h)
      have hhead := feed_chunkHeader left.toNat_lt 0 []
      simp only [chunkHeader, hpos, if_true, if_false] at hhead
      simp only [h0, if_false]
      have htr := (newChunkedAfterPreview_eq src maxLen h0).1
      exact ⟨rfl, chunkedSpec _ ⟨.data left.toNat, []⟩, meters_chunked hhead, [], rfl, .refl htr⟩

end H1BodyToChunkedTransfer

end

/-- The owner of a transfer, told of `k` bytes, sees no more than `k` and the accepted payload, no
    more than the transfer has read, and exactly that at the end, in every state that any arrival of
    the stream and any behaviour of the writer lead to without a failing read that has counted
    payload. -/
theorem accounts_of_failsEmpty [AtoiRadix16] (kind : BodyKind) (maxLen : Nat) (src : Source)
    (ω : Type) [AsyncWrite ω] (w : ω) (config : StreamCopyConfig) (k : Nat)
    (a : Option (Except StreamCopyError Unit)) (t : H1BodyToChunkedTransfer (Tapped ω))
    (hreach : (kind.transfer src (tap w) maxLen config).Reaches FailsEmpty k a t) :
    Accounts kind src.content k t := by
  have hstart : (kind.transfer src (tap w) maxLen config).Flies kind src.content :=
    ⟨inv_transfer kind src w maxLen config, metered_transfer src w config⟩
  obtain ⟨v, rfl, hacc, -⟩ := hreach.accounts hstart
  simpa using accounts_addCopied hacc k

/-- A body of two bytes in two segments, and a byte behind it. -/
def twoByteBody : Source := ⟨ascii "2\r\na", [.stall, .slice 98 (ascii "\r\n0\r\n\r\nX")], by decide⟩

theorem accounts_twoByteBody : ∃ t : H1BodyToChunkedTransfer (Tapped Sink),
    ((BodyKind.ofType .chunked).transfer twoByteBody (tap (⟨[]⟩ : Sink)) 1024 ⟨64, 64⟩).Reaches
      FailsEmpty 7 (some (.ok ())) (t.addCopied 7) ∧ t.writtenBodySize = 2 ∧
    Accounts (.ofType .chunked) twoByteBody.content 7 (t.addCopied 7) := by
  have hrun : (iter poll 9 ((ofType .chunked).transfer twoByteBody
      (tap (⟨[]⟩ : Sink)) 1024 ⟨64, 64⟩)).any (fun p =>
        decide (p.1 = .ready (.ok ())) && decide (p.2.writtenBodySize = 2)) = true := by
    decide +kernel
  obtain ⟨⟨ans, t⟩, hiter, htest⟩ := (Option.any_eq_true _ _).mp hrun
  simp only [Bool.and_eq_true, decide_eq_true_eq] at htest
  obtain ⟨rfl, hn⟩ := htest
  obtain ⟨v, hsteps, hv⟩ := steps_of_iter hiter
  have hreach : ((ofType .chunked).transfer twoByteBody (tap (⟨[]⟩ : Sink)) 1024
      ⟨64, 64⟩).Reaches FailsEmpty 7 (some (.ok ())) (t.addCopied 7) :=
    .addCopied 7 (.ready .new hsteps (failsEmpty_of_poll hv fun _ _ => nofun) hv)
  exact ⟨t, hreach, hn, accounts_of_failsEmpty (.ofType .chunked) 1024 twoByteBody Sink ⟨[]⟩
    ⟨64, 64⟩ 7 _ _ hreach⟩

/-- A chunk of five bytes in front of a size line that is none. -/
def brokenBody : Source := ⟨ascii "5\r\nhello\r\nZZ\r\n", [], by decide⟩

/-- The read takes the chunk and fails on the next line: five bytes are reported as written, and the
    writer has none. -/
theorem not_accounts_brokenBody : ∃ a t,
    ((BodyKind.ofType .chunked).transfer brokenBody (tap (⟨[]⟩ : Sink)) 1024 {}).Reaches
        (fun _ => True) 0 a t ∧
      t.writtenBodySize = 5 ∧ t.state.writer.log = [] ∧
      ¬Accounts (.ofType .chunked) brokenBody.content 0 t := by
  have hrun : (iter poll 1 ((ofType .chunked).transfer brokenBody
      (tap (⟨[]⟩ : Sink)) 1024 {})).any (fun p =>
        decide (p.1 = .ready (.error (.readFailed ⟨.invalidData, "invalid chunk size"⟩))) &&
        decide (p.2.writtenBodySize = 5) && decide (p.2.state.writer.log = [])) = true := by
    decide +kernel
  obtain ⟨⟨ans, t⟩, hiter, htest⟩ := (Option.any_eq_true _ _).mp hrun
  simp only [Bool.and_eq_true, decide_eq_true_eq] at htest
  obtain ⟨⟨rfl, hn⟩, hlog⟩ := htest
  obtain ⟨v, hsteps, hv⟩ := steps_of_iter hiter
  refine ⟨_, t, .ready .new (Relation.ReflTransGen.mono (fun _ _ h => ⟨trivial, h.2⟩) _ _ hsteps)
    trivial hv, hn, hlog,
    fun hacc => ?_⟩
  have hle := hacc.accepted
  rw [hn, hlog] at hle
  exact absurd hle (by decide)

end Vey.Http
