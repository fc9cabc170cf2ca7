import Vey.Codec.QuicHandshake

/-! A handshake message is put together from the frames in any order of delivery.

        stream      [        message        | further ...
        frames         [---]   [------]  [------]
        accepted    |---------|   [-------]  |
                              ^ unfilled     ^ expected

    Two phases: the first bytes are waited for, then the length is known and every frame that does not
    start behind the message is accepted. -/

namespace Vey.Codec.Quic
open Schemes List HandshakeCoalescer

/-- The positions of the stream that a frame has. -/
def CryptoFrame.span (f : CryptoFrame) : Span := ⟨f.streamOffset, f.data.length⟩

/-- A part of the stream. -/
structure CryptoFrame.SliceOf (stream : Bytes) (f : CryptoFrame) : Prop where
  within : f.streamOffset + f.data.length ≤ stream.length
  data_eq : f.data = (stream.drop f.streamOffset).take f.data.length

/-- A position that one of the frames has. -/
def Received (frames : List CryptoFrame) (i : Nat) : Prop := Covered (frames.map (·.span)) i

theorem received_concat {frames : List CryptoFrame} {f : CryptoFrame} {i : Nat} :
    Received (frames ++ [f]) i ↔ Received frames i ∨ i ∈ f.span := by
  rw [Received, map_append]
  exact covered_concat

/-! ### Writing to the buffer -/

section
variable {buf data stream : Bytes} {offset : Nat}

theorem getElem?_overwrite (h : offset + data.length ≤ buf.length) (i : Nat) :
    (overwrite buf offset data)[i]? =
      if offset ≤ i ∧ i < offset + data.length then data[i - offset]? else buf[i]? := by
  have hlen : (buf.take offset).length = offset := by
    rw [length_take]
    omega
  rw [overwrite, append_assoc, getElem?_append, hlen, getElem?_append]
  rcases Nat.lt_or_ge i offset with hi | hi
  · rw [if_pos hi, getElem?_take_of_lt hi, if_neg (by omega)]
  · rw [if_neg (by omega)]
    by_cases hd : i - offset < data.length
    · rw [if_pos hd, if_pos ⟨hi, by omega⟩]
    · rw [if_neg hd, if_neg (by omega), getElem?_drop]
      congr 1
      omega

theorem resize_of_le {n : Nat} (h : n ≤ buf.length) : resize buf n = buf.take n := by
  rw [resize, Nat.sub_eq_zero_of_le h, replicate_zero, append_nil]

theorem copyFromSlice_eq (h : offset + data.length ≤ buf.length) :
    copyFromSlice buf offset data = some (overwrite buf offset data) := if_pos h

/-- Within the buffer, both ways to write a frame come to the same. -/
theorem store_eq {c : HandshakeCoalescer} (h : offset + data.length ≤ c.buf.length) :
    c.store offset data = some (overwrite c.buf offset data) := by
  rw [store]
  split
  case isTrue => exact copyFromSlice_eq h
  case isFalse hge =>
    rw [resize_of_le (by omega), overwrite, drop_of_length_le (by omega), append_nil]

/-- A frame that starts in the prefix of the stream extends it. -/
theorem store_take {c : HandshakeCoalescer} {f : CryptoFrame} {n : Nat}
    (hf : f.SliceOf stream) (hbuf : c.buf = stream.take n) (hn : n ≤ stream.length)
    (hoff : f.streamOffset ≤ n) :
    c.store f.streamOffset f.data =
      some (stream.take (max n (f.streamOffset + f.data.length))) := by
  have hlen : c.buf.length = n := by rw [hbuf, length_take, Nat.min_eq_left hn]
  have hjoin : stream.take f.streamOffset ++ f.data =
      stream.take (f.streamOffset + f.data.length) := by
    conv_lhs => rw [hf.data_eq]
    exact take_add.symm
  rcases Nat.le_total (f.streamOffset + f.data.length) n with hle | hge
  · rw [store_eq (by omega), Nat.max_eq_left hle, overwrite, hbuf, take_take,
      Nat.min_eq_left hoff, hjoin, drop_take]
    have hsum : n = f.streamOffset + f.data.length + (n - (f.streamOffset + f.data.length)) := by
      omega
    conv_rhs => rw [hsum, take_add]
  · rw [store, if_neg (by omega), Nat.max_eq_right hge, resize_of_le (by omega), hbuf,
      take_take, Nat.min_eq_left hoff, hjoin]

end

/-! ### The two phases -/

variable (stream : Bytes)

/-- The coalescer with the first `n` bytes of the stream and no header. -/
def headless (limit n : Nat) : HandshakeCoalescer where
  maxMessageSize := limit
  buf := stream.take n
  unfilledOffset := n

@[simp] theorem headless_expectedLength (limit n : Nat) :
    (headless stream limit n).expectedLength = 0 := rfl

@[simp] theorem headless_unfilledOffset (limit n : Nat) :
    (headless stream limit n).unfilledOffset = n := rfl

section
variable (m : Handshake) (further : Bytes) (limit : Nat)

/-- Before the header is there: the first `n` bytes of the stream. -/
structure Waiting (accepted : List CryptoFrame) (n : Nat) (c : HandshakeCoalescer) : Prop where
  few : n < 4
  state : c = headless (m.message ++ further) limit n
  received : ∀ i, Received accepted i ↔ i < n

/-- With the header: the prefix up to `unfilled_offset`, and the fragments behind a gap. -/
structure Known (accepted : List CryptoFrame) (c : HandshakeCoalescer) : Prop where
  header : c.header = some m.header
  expected : c.expectedLength = m.message.length
  length : c.buf.length = m.message.length
  start : 4 ≤ c.unfilledOffset
  within : c.unfilledOffset ≤ m.message.length
  beyond : ∀ s ∈ c.fragmentSet.spans, c.unfilledOffset < s.offset ∧ s.stop ≤ m.message.length
  received : ∀ i < m.message.length,
    (Received accepted i ↔ i < c.unfilledOffset ∨ Covered c.fragmentSet.spans i)
  content : ∀ i < m.message.length, Received accepted i → c.buf[i]? = m.message[i]?

/-- The coalescer behind the frames that it has accepted. -/
inductive Assembled (accepted : List CryptoFrame) (c : HandshakeCoalescer) : Prop where
  | waiting {n : Nat} (h : Waiting m further limit accepted n c)
  | known (h : Known m accepted c)

variable {m further limit} {accepted : List CryptoFrame} {c : HandshakeCoalescer}
  {f : CryptoFrame} {n : Nat}

theorem four_le_message (m : Handshake) : 4 ≤ m.message.length := by
  rw [m.length_message]
  omega

theorem min_eq_ite (n k : Nat) : (if k < n then k else n) = min n k := by
  split <;> omega

/-- The header is captured from the first bytes of the stream. -/
theorem captureHeader_take (hmax : m.body.length ≤ limit) (hfour : 4 ≤ n)
    (hn : n ≤ (m.message ++ further).length) :
    (headless (m.message ++ further) limit n).captureHeader =
      some (.ok (), {
        maxMessageSize := limit
        header := some m.header
        buf := resize ((m.message ++ further).take n) m.message.length
        unfilledOffset := min n m.message.length
        expectedLength := m.message.length }) := by
  have hlen : ((m.message ++ further).take n).length = n := by
    rw [length_take, Nat.min_eq_left hn]
  have hparse : HandshakeHeader.tryParse (((m.message ++ further).take n).take n) =
      some m.header := by
    rw [take_take, Nat.min_self, m.tryParse_start (take_append_drop n _),
      if_pos (by omega)]
  have hsize : ¬limit < m.header.msgLength := Nat.not_lt.mpr hmax
  simp only [captureHeader, headless, hlen, Nat.lt_irrefl, if_false, hparse, if_neg hsize,
    m.encodedLen_header, min_eq_ite]

theorem captureHeader_few (hfew : n < 4) :
    (headless (m.message ++ further) limit n).captureHeader =
      some (.ok (), headless (m.message ++ further) limit n) := by
  have hfour := four_le_message m
  have hlen : ((m.message ++ further).take n).length = n := by
    rw [length_take, length_append]
    omega
  have hparse : HandshakeHeader.tryParse (((m.message ++ further).take n).take n) = none := by
    rw [take_take, Nat.min_self, m.tryParse_start (take_append_drop n _),
      if_neg (by omega)]
  simp only [captureHeader, headless, hlen, Nat.lt_irrefl, if_false, hparse]

/-- Without fragments the prefix ends where the frame does. -/
theorem advanceUnfilled_headless (buf : Bytes) (limit n stop : Nat) :
    advanceUnfilled
        { maxMessageSize := limit, buf := buf, unfilledOffset := n } stop =
      { maxMessageSize := limit, buf := buf, unfilledOffset := max n stop } := by
  rw [advanceUnfilled]
  split
  case isTrue hle => rw [Nat.max_eq_left hle]
  case isFalse hlt =>
    rw [Nat.max_eq_right (Nat.le_of_not_le hlt)]
    rfl

/-- The header came with the first `n` bytes. -/
theorem Known.of_take (hfour : 4 ≤ n) (hn : n ≤ (m.message ++ further).length)
    (hrec : ∀ i, Received accepted i ↔ i < n) :
    Known m accepted {
      maxMessageSize := limit
      header := some m.header
      buf := resize ((m.message ++ further).take n) m.message.length
      unfilledOffset := min n m.message.length
      expectedLength := m.message.length } where
  header := rfl
  expected := rfl
  length := by
    rw [resize, length_append, length_take, length_replicate]
    omega
  start := Nat.le_min.mpr ⟨hfour, four_le_message m⟩
  within := Nat.min_le_right _ _
  beyond := fun s hs => absurd hs not_mem_nil
  received := by
    intro i hi
    rw [hrec i, Nat.lt_min]
    exact ⟨fun h => .inl ⟨h, hi⟩, fun h => h.elim And.left fun hc => absurd hc (covered_nil i)⟩
  content := by
    intro i hi hi'
    have hin := (hrec i).mp hi'
    rw [resize, getElem?_append_left (by rw [length_take, length_take]; omega),
      getElem?_take_of_lt hi, getElem?_take_of_lt hin, getElem?_append_left hi]

/-! ### Waiting for the header -/

/-- A frame behind a gap. -/
theorem Waiting.recvCrypto_reject (h : Waiting m further limit accepted n c)
    (hoff : n < f.streamOffset) : c.recvCrypto f = some (.error headerMissing, c) := by
  rw [h.state, recvCrypto]
  simp [hoff, Nat.not_le.mpr hoff]

/-- A frame that starts in the prefix. -/
theorem Waiting.recvCrypto_accept (h : Waiting m further limit accepted n c)
    (hmax : m.body.length ≤ limit) (hf : f.SliceOf (m.message ++ further))
    (hoff : f.streamOffset ≤ n) :
    ∃ c', c.recvCrypto f = some (.ok (), c') ∧
      Assembled m further limit (accepted ++ [f]) c' := by
  have hfour := four_le_message m
  have hn : n ≤ (m.message ++ further).length := by
    have := h.few
    rw [length_append]
    omega
  have hrec : ∀ i, Received (accepted ++ [f]) i ↔
      i < max n (f.streamOffset + f.data.length) := by
    intro i
    rw [received_concat, h.received i, CryptoFrame.span, Span.mem_mk]
    omega
  obtain ⟨c', hcapture, hc'⟩ : ∃ c',
      (headless (m.message ++ further) limit
        (max n (f.streamOffset + f.data.length))).captureHeader = some (.ok (), c') ∧
      Assembled m further limit (accepted ++ [f]) c' := by
    rcases Nat.lt_or_ge (max n (f.streamOffset + f.data.length)) 4 with hfew | hmany
    · exact ⟨_, captureHeader_few hfew, .waiting ⟨hfew, rfl, hrec⟩⟩
    · have hle : max n (f.streamOffset + f.data.length) ≤ (m.message ++ further).length :=
        Nat.max_le.mpr ⟨hn, hf.within⟩
      exact ⟨_, captureHeader_take hmax hmany hle, .known (.of_take hmany hle hrec)⟩
  rcases Nat.eq_zero_or_pos f.data.length with hnone | hsome
  · refine ⟨c, ?_, .waiting ⟨h.few, h.state, ?_⟩⟩
    · rw [h.state, recvCrypto]
      simp [takeLength, hnone, Nat.not_lt.mpr hoff]
    · intro i
      rw [hrec i, hnone, Nat.add_zero, Nat.max_eq_left hoff]
  · refine ⟨c', ?_, hc'⟩
    have hadvance := advanceUnfilled_headless ((m.message ++ further).take
      (max n (f.streamOffset + f.data.length))) limit n (f.streamOffset + f.data.length)
    have hstore := store_take (c := headless (m.message ++ further) limit n)
      hf rfl hn hoff
    have htake : (headless (m.message ++ further) limit n).takeLength f = f.data.length :=
      if_neg (Nat.lt_irrefl 0)
    have hoff' : f.streamOffset ≤ (headless (m.message ++ further) limit n).unfilledOffset := hoff
    rw [h.state, recvCrypto, if_neg (fun h => Nat.lt_irrefl 0 h.1)]
    simp only [htake, if_neg hsome.ne', if_pos hoff', take_length, hstore]
    exact (congrArg _ hadvance).trans hcapture

/-! ### With the header -/

/-- A frame that starts behind the message. -/
theorem Known.recvCrypto_reject (h : Known m accepted c)
    (hoff : m.message.length < f.streamOffset) : ∃ e, c.recvCrypto f = some (.error e, c) := by
  have hpos := four_le_message m
  refine ⟨_, if_pos ?_⟩
  rw [h.expected]
  exact ⟨by omega, hoff⟩

/-- The part of a frame that belongs to the message. -/
theorem Known.takeLength_eq (h : Known m accepted c) :
    c.takeLength f = min f.data.length (m.message.length - f.streamOffset) := by
  have hpos := four_le_message m
  rw [takeLength, if_pos (by rw [h.expected]; omega), h.expected]

theorem mem_span_iff {i k : Nat} (hk : k = min f.data.length (m.message.length - f.streamOffset))
    (hi : i < m.message.length) : i ∈ f.span ↔ i ∈ (⟨f.streamOffset, k⟩ : Span) := by
  rw [CryptoFrame.span, Span.mem_mk, Span.mem_mk]
  omega

section

variable {k : Nat} (h : Known m accepted c) (hf : f.SliceOf (m.message ++ further))
  (hk : k = min f.data.length (m.message.length - f.streamOffset))
  (hstop : f.streamOffset + k ≤ m.message.length)

include h hf hk hstop

/-- The bytes of the frame in the buffer. -/
theorem Known.content_overwrite : ∀ i < m.message.length, Received (accepted ++ [f]) i →
      (overwrite c.buf f.streamOffset (f.data.take k))[i]? = m.message[i]? := by
  have hlen : (f.data.take k).length = k := by
    rw [length_take]
    omega
  intro i hi hrec
  rw [getElem?_overwrite (by rw [hlen, h.length]; exact hstop), hlen]
  split
  case isTrue hin =>
    rw [getElem?_take_of_lt (by omega), hf.data_eq, getElem?_take_of_lt (by omega),
      getElem?_drop, Nat.add_sub_cancel' hin.1, getElem?_append_left hi]
  case isFalse hout =>
    rcases received_concat.mp hrec with hold | hnew
    · exact h.content i hi hold
    · exact absurd ((mem_span_iff hk hi).mp hnew) hout

/-- The prefix moves on over a frame that starts in it. -/
theorem Known.advance (hoff : f.streamOffset ≤ c.unfilledOffset) :
    Known m (accepted ++ [f])
      ({ c with buf := overwrite c.buf f.streamOffset (f.data.take k) }.advanceUnfilled
        (f.streamOffset + k)) := by
  have hbuf : (overwrite c.buf f.streamOffset (f.data.take k)).length = m.message.length := by
    rw [overwrite_length (by rw [length_take, h.length]; omega), h.length]
  have hcontent := h.content_overwrite hf hk hstop
  have hrec : ∀ i < m.message.length, (Received (accepted ++ [f]) i ↔
      i < max c.unfilledOffset (f.streamOffset + k) ∨ Covered c.fragmentSet.spans i) := by
    intro i hi
    rw [received_concat, h.received i hi, mem_span_iff hk hi, Span.mem_mk, or_right_comm]
    exact or_congr_left (by omega)
  rw [advanceUnfilled]
  split
  case isTrue hle =>
    rw [Nat.max_eq_left hle] at hrec
    exact { h with length := hbuf, received := hrec, content := hcontent }
  case isFalse hlt =>
    have hlt : c.unfilledOffset < f.streamOffset + k := Nat.lt_of_not_le hlt
    rw [Nat.max_eq_right hlt.le] at hrec
    have hle := le_sweep (f.streamOffset + k) c.fragmentSet.spans
    exact {
      header := h.header
      expected := h.expected
      length := hbuf
      start := h.start.trans (hlt.le.trans hle)
      within := sweep_le hstop fun s hs => (h.beyond s hs).2
      beyond := fun s hs => ⟨sweep_beyond c.fragmentSet.sorted s hs,
        (h.beyond s ((sweep_sublist _ _).subset hs)).2⟩
      received := fun i hi => (hrec i hi).trans sweep_covered.symm
      content := hcontent }

/-- A frame behind a gap is noted. -/
theorem Known.note (hoff : c.unfilledOffset < f.streamOffset) :
    Known m (accepted ++ [f]) { c with
      buf := overwrite c.buf f.streamOffset (f.data.take k)
      fragmentSet := c.fragmentSet.insert ⟨f.streamOffset, k⟩ } where
  header := h.header
  expected := h.expected
  length := by
    rw [overwrite_length (by rw [length_take, h.length]; omega), h.length]
  start := h.start
  within := h.within
  beyond := by
    intro s hs
    rcases SpanSet.mem_insert.mp hs with rfl | hold
    · exact ⟨hoff, hstop⟩
    · exact h.beyond s hold
  received := by
    intro i hi
    rw [received_concat, h.received i hi, mem_span_iff hk hi, SpanSet.covered_insert, or_assoc]
    exact or_congr_right or_comm
  content := h.content_overwrite hf hk hstop

end

/-- A frame that does not start behind the message. -/
theorem Known.recvCrypto_accept (h : Known m accepted c) (hf : f.SliceOf (m.message ++ further))
    (hoff : f.streamOffset ≤ m.message.length) :
    ∃ c', c.recvCrypto f = some (.ok (), c') ∧ Known m (accepted ++ [f]) c' := by
  have hpos : 0 < c.expectedLength := by
    rw [h.expected]
    exact Nat.lt_of_lt_of_le (by decide) (four_le_message m)
  obtain ⟨k, hk⟩ : ∃ k, k = min f.data.length (m.message.length - f.streamOffset) := ⟨_, rfl⟩
  have hstop : f.streamOffset + k ≤ m.message.length := by omega
  have hlen : (f.data.take k).length = k := by
    rw [length_take]
    omega
  have hfit : f.streamOffset + (f.data.take k).length ≤ c.buf.length := by
    rw [hlen, h.length]
    exact hstop
  have hnot : ¬(0 < c.expectedLength ∧ c.expectedLength < f.streamOffset) := by
    rw [h.expected]
    omega
  rw [recvCrypto, if_neg hnot]
  simp only [h.takeLength_eq, ← hk]
  by_cases hnone : k = 0
  · rw [if_pos hnone, if_neg (fun h => hpos.ne' h.1)]
    refine ⟨c, rfl, { h with received := ?_, content := ?_ }⟩
    · intro i hi
      rw [received_concat, mem_span_iff hk hi, Span.mem_mk, or_iff_left (by omega)]
      exact h.received i hi
    · intro i hi hrec
      refine h.content i hi ((received_concat.mp hrec).resolve_right fun hnew => ?_)
      rw [mem_span_iff hk hi, Span.mem_mk] at hnew
      omega
  · rw [if_neg hnone]
    by_cases hin : f.streamOffset ≤ c.unfilledOffset
    · simp only [if_pos hin, store_eq hfit]
      have hknown := h.advance hf hk hstop hin
      refine ⟨_, if_pos ?_, hknown⟩
      rw [hknown.expected, ← h.expected]
      exact hpos
    · rw [if_neg hin, if_neg hpos.ne']
      simp only [copyFromSlice_eq hfit]
      exact ⟨_, rfl, h.note hf hk hstop (Nat.lt_of_not_le hin)⟩

/-! ### Any order of delivery -/

/-- A frame that is not accepted: it starts past the contiguous prefix while the header is unknown,
    or past the end of the message. -/
def Unusable (m : Handshake) (accepted : List CryptoFrame) (f : CryptoFrame) : Prop :=
  ((∃ i < 4, ¬Received accepted i) ∧ ∃ i < f.streamOffset, ¬Received accepted i) ∨
    m.message.length < f.streamOffset

/-- One frame. -/
theorem Assembled.recvCrypto (h : Assembled m further limit accepted c)
    (hmax : m.body.length ≤ limit) (hf : f.SliceOf (m.message ++ further)) :
    (∃ e, Unusable m accepted f ∧ c.recvCrypto f = some (.error e, c)) ∨
    ∃ c', ¬Unusable m accepted f ∧ c.recvCrypto f = some (.ok (), c') ∧
      Assembled m further limit (accepted ++ [f]) c' := by
  have hfour := four_le_message m
  cases h with
  | @waiting n h =>
    have hfew := h.few
    rcases Nat.lt_or_ge n f.streamOffset with hlt | hge
    · refine .inl ⟨_, .inl ⟨⟨n, hfew, ?_⟩, n, hlt, ?_⟩, h.recvCrypto_reject hlt⟩ <;>
      · rw [h.received n]
        exact Nat.lt_irrefl n
    · obtain ⟨c', hrecv, hc'⟩ := h.recvCrypto_accept hmax hf hge
      refine .inr ⟨c', ?_, hrecv, hc'⟩
      rintro (⟨-, i, hi, hnot⟩ | hpast)
      · exact hnot ((h.received i).mpr (by omega))
      · omega
  | known h =>
    rcases Nat.lt_or_ge m.message.length f.streamOffset with hlt | hge
    · obtain ⟨e, he⟩ := h.recvCrypto_reject hlt
      exact .inl ⟨e, .inr hlt, he⟩
    · obtain ⟨c', hrecv, hc'⟩ := h.recvCrypto_accept hf hge
      refine .inr ⟨c', ?_, hrecv, .known hc'⟩
      rintro (⟨⟨i, hi, hnot⟩, -⟩ | hpast)
      · have hstart := h.start
        exact hnot ((h.received i (by omega)).mpr (.inl (by omega)))
      · omega

/-- All the frames. -/
theorem Assembled.recvAll (hmax : m.body.length ≤ limit) {frames : List CryptoFrame}
    (hframes : ∀ f ∈ frames, f.SliceOf (m.message ++ further))
    (h : Assembled m further limit accepted c) :
    ∃ c' new, c.recvAll frames = some (c', new) ∧
      Assembled m further limit (accepted ++ new) c' := by
  induction frames generalizing accepted c with
  | nil => exact ⟨c, [], rfl, by rwa [append_nil]⟩
  | cons f frames ih =>
    obtain ⟨hf, hframes⟩ := forall_mem_cons.mp hframes
    rcases h.recvCrypto hmax hf with ⟨e, -, hrecv⟩ | ⟨c₁, -, hrecv, hc₁⟩
    · obtain ⟨c', new, hall, hc'⟩ := ih hframes h
      refine ⟨c', new, ?_, hc'⟩
      simp only [recvAll, hrecv, hall]
      rfl
    · obtain ⟨c', new, hall, hc'⟩ := ih hframes hc₁
      refine ⟨c', f :: new, ?_, ?_⟩
      · simp only [recvAll, hrecv, hall]
        rfl
      · rwa [append_assoc] at hc'

/-- The message is complete with the frames that have all of it. -/
theorem Assembled.finished_iff (h : Assembled m further limit accepted c) :
    c.finished = true ↔ ∀ i < m.message.length, Received accepted i := by
  have hfour := four_le_message m
  cases h with
  | @waiting n h =>
    have hfew := h.few
    have hfin : c.finished = false := by
      rw [h.state]
      rfl
    rw [hfin]
    refine iff_of_false Bool.false_ne_true fun hall => ?_
    exact absurd ((h.received n).mp (hall n (by omega))) (Nat.lt_irrefl n)
  | known h =>
    have hfin : c.finished = true ↔ c.unfilledOffset = m.message.length := by
      rw [finished, h.expected]
      simp only [Bool.and_eq_true, decide_eq_true_eq, beq_iff_eq]
      omega
    rw [hfin]
    constructor
    · intro hall i hi
      exact (h.received i hi).mpr (.inl (by omega))
    · intro hall
      by_contra hne
      have hlt : c.unfilledOffset < m.message.length := Nat.lt_of_le_of_ne h.within hne
      -- The first position behind the prefix is in no fragment.
      rcases (h.received _ hlt).mp (hall _ hlt) with hself | ⟨s, hs, hin⟩
      · exact absurd hself (Nat.lt_irrefl _)
      · exact absurd hin.1 (Nat.not_le.mpr (h.beyond s hs).1)

theorem Assembled.buf_eq (h : Assembled m further limit accepted c) (hfin : c.finished = true) :
    c.buf = m.message := by
  have hall := h.finished_iff.mp hfin
  cases h with
  | waiting h =>
    rw [h.state] at hfin
    exact nomatch hfin
  | known h =>
    refine ext_getElem? fun i => ?_
    rcases Nat.lt_or_ge i m.message.length with hi | hi
    · exact h.content i hi (hall i hi)
    · rw [getElem?_eq_none hi, getElem?_eq_none (by rw [h.length]; exact hi)]

end

/-- Behind any frames of the stream, the message is complete exactly when the accepted frames have all
    of it, and a frame is rejected exactly when it cannot be placed. -/
theorem recvAll_reassembles (m : Handshake) (further : Bytes) (maxMessageSize : Nat)
    (hmax : m.body.length ≤ maxMessageSize) (frames : List CryptoFrame)
    (hframes : ∀ f ∈ frames, f.SliceOf (m.message ++ further)) :
    ∃ c accepted,
      HandshakeCoalescer.recvAll { maxMessageSize := maxMessageSize } frames =
        some (c, accepted) ∧
      (c.finished = true ↔ ∀ i < m.message.length, Received accepted i) ∧
      (c.finished = true → c.buf = m.message) ∧
      ∀ f : CryptoFrame, f.SliceOf (m.message ++ further) →
        ∃ r c', c.recvCrypto f = some (r, c') ∧
          (r.isOk = false ↔ Unusable m accepted f) ∧ (r.isOk = false → c' = c) := by
  have hstart : Assembled m further maxMessageSize [] { maxMessageSize := maxMessageSize } :=
    .waiting ⟨by decide, rfl, fun i => iff_of_false (covered_nil i) (Nat.not_lt_zero i)⟩
  obtain ⟨c, accepted, hall, hc⟩ := hstart.recvAll hmax hframes
  rw [nil_append] at hc
  refine ⟨c, accepted, hall, hc.finished_iff, hc.buf_eq, fun f hf => ?_⟩
  rcases hc.recvCrypto hmax hf with ⟨e, hbad, hrecv⟩ | ⟨c', hgood, hrecv, -⟩
  · exact ⟨_, c, hrecv, iff_of_true rfl hbad, fun _ => rfl⟩
  · exact ⟨_, c', hrecv, iff_of_false Bool.true_eq_false.mp hgood, fun h => nomatch h⟩

/-- A message of three bytes: the header comes first, then the end with a byte of the next message,
    then the rest. -/
theorem recvAll_reassembles_reordered :
    ∃ c accepted, HandshakeCoalescer.recvAll { maxMessageSize := 16 }
        [⟨0, [2, 0, 0, 3]⟩, ⟨6, [7, 9]⟩, ⟨3, [3, 5, 6]⟩] = some (c, accepted) ∧
      c.finished = true ∧ c.buf = [2, 0, 0, 3, 5, 6, 7] := by
  obtain ⟨c, accepted, hall, -, hbuf, -⟩ := recvAll_reassembles ⟨2, [5, 6, 7], by decide⟩ [9] 16
    (by decide) [⟨0, [2, 0, 0, 3]⟩, ⟨6, [7, 9]⟩, ⟨3, [3, 5, 6]⟩] (by
      intro f hf
      simp only [mem_cons, not_mem_nil, or_false] at hf
      rcases hf with rfl | rfl | rfl <;> exact ⟨by decide, rfl⟩)
  have hfin : (recvAll { maxMessageSize := 16 }
      [⟨0, [2, 0, 0, 3]⟩, ⟨6, [7, 9]⟩, ⟨3, [3, 5, 6]⟩]).map (·.1.finished) = some true := by decide
  rw [hall] at hfin
  exact ⟨c, accepted, hall, Option.some.inj hfin, hbuf (Option.some.inj hfin)⟩

end Vey.Codec.Quic
